import Mathlib.Data.List.Chain
import PatchReview.Import.Resolve
import PatchReview.Proofs.Fields
import PatchReview.Proofs.Index.Listing

/-!
# What a module is read to export

A module re-exports names of the modules that its specifiers lead to. Collecting the exports of a module either runs
into a module below it that cannot be gone through, or explores the modules that are reached by re-exports of all names:
each of them that is met soon enough has all its exports taken in.
-/

namespace PatchReview.Import

open Action Collected Fields Files List Path Relation Repository

namespace Collected

variable {c : Collected} {place : Option Graph.Span} {name other : String}

/-- The names that were collected. -/
def keys (c : Collected) : Strings := c.names.map (·.1)

lemma mem_keys_add : other ∈ (c.add place name).keys ↔ other = name ∨ other ∈ c.keys := by
  unfold add
  cases place with
  | some s => exact mem_keys_insert
  | none =>
    by_cases hk : has c.names name
    · have hmem : name ∈ c.keys := by simpa [has, keys] using hk
      simp only [hk, if_true]
      exact ⟨.inr, fun h => h.elim (fun e => e ▸ hmem) id⟩
    · simp only [hk]
      simp [keys, or_comm]

lemma get?_names : (∃ p, get? c.names name = some p) ↔ name ∈ c.keys := by
  unfold keys
  induction c.names with
  | nil => simp [get?]
  | cons p rest ih =>
    rw [get?_cons, map_cons, mem_cons]
    by_cases h : p.1 = name
    · simp [h]
    · simp [h, ih, Ne.symm h]

lemma mem_keys_addKeeping : other ∈ (c.addKeeping place name).keys ↔ other = name ∨ other ∈ c.keys := by
  unfold addKeeping
  split
  · rename_i s hs
    have hmem : name ∈ c.keys := get?_names.1 ⟨_, hs⟩
    exact ⟨.inr, fun h => h.elim (fun e => e ▸ hmem) id⟩
  · exact mem_keys_add

lemma visited_add : (c.add place name).visited = c.visited := by
  unfold add
  cases place with
  | some s => rfl
  | none => dsimp only; split <;> rfl

/-- All names of another collection are added. -/
lemma mem_keys_foldl_addKeeping {names : List (String × Option Graph.Span)} :
    other ∈ (names.foldl (fun c n => c.addKeeping place n.1) c).keys ↔ other ∈ names.map (·.1) ∨ other ∈ c.keys := by
  induction names generalizing c with
  | nil => simp
  | cons n names ih => rw [foldl_cons, ih, mem_keys_addKeeping, map_cons, mem_cons, or_left_comm, or_assoc]

lemma visited_addKeeping : (c.addKeeping place name).visited = c.visited := by
  unfold addKeeping
  split
  · rfl
  · exact visited_add

lemma visited_foldl_addKeeping (names : List (String × Option Graph.Span)) :
    (names.foldl (fun c n => c.addKeeping place n.1) c).visited = c.visited := by
  induction names generalizing c with
  | nil => rfl
  | cons n names ih => rw [foldl_cons, ih, visited_addKeeping]

/-- What was collected stays. -/
structure Within (c d : Collected) : Prop where
  keys : ∀ name ∈ c.keys, name ∈ d.keys
  visited : ∀ path ∈ c.visited, path ∈ d.visited

lemma Within.refl (c : Collected) : c.Within c := ⟨fun _ h => h, fun _ h => h⟩

lemma Within.trans {a b c : Collected} (h : a.Within b) (g : b.Within c) : a.Within c :=
  ⟨fun n hn => g.keys n (h.keys n hn), fun p hp => g.visited p (h.visited p hp)⟩

lemma within_add (c : Collected) (place name) : c.Within (c.add place name) :=
  ⟨fun _ h => mem_keys_add.2 (.inr h), fun _ h => by rwa [visited_add]⟩

end Collected

/-- The module that an export takes names from. -/
def Export.module? : Export → Option String
  | declaration _ | names _ | namedFrom [] _ => none
  | namedFrom (_ :: _) module | allFrom module => some module

lemma Export.module?_namedFrom {names n} (hn : n ∈ names) (module) :
    (namedFrom names module).module? = some module := by
  cases names with
  | nil => cases hn
  | cons m names => rfl

variable (exports : String → List Export) (leads : String → String → String → Prop) (sought : ExportName → String) in
/-- The names that a module has, given what each module exports, which module a specifier leads to, and the name that is
sought there for a name of a list. -/
inductive Provides : String → String → Prop
  | declared {path name : String} (h : .declaration name ∈ exports path) : Provides path name
  | listed {path : String} {names : List ExportName} {n : ExportName} (h : .names names ∈ exports path)
    (hn : n ∈ names) : Provides path n.outer
  | named {path module target : String} {names : List ExportName} {n : ExportName}
    (h : .namedFrom names module ∈ exports path) (hn : n ∈ names) (ht : leads path module target)
    (hp : Provides target (sought n)) : Provides path n.outer
  | all {path module target name : String} (h : .allFrom module ∈ exports path) (ht : leads path module target)
    (hp : Provides target name) : Provides path name

section

variable (ix : Index) (rev : String) (w : Workspace) (path : String)

/-- The bytes of a file at a revision. -/
def sourceOf : Option Bytes :=
  match bytesAt ix rev path with
  | .ok (some (_, source)) => source
  | _ => none

/-- Every file of a revision has its bytes. -/
def KeepsBytes : Prop :=
  ∀ path, present ix rev path = true → ∃ blob source, bytesAt ix rev path = .ok (some (blob, some source))

/-- The files that a specifier in a module stands for. -/
def filesOf (module : String) : Option Strings :=
  (typescriptModuleFiles ix { module, name := "", rev, importer := some path } w).1.toOption

/-- A specifier in a module leads to one file. -/
def Leads (module target : String) : Prop := filesOf ix rev w path module = some [target]

/-- The exports that are read off a module. -/
def readExports : List Export :=
  match sourceOf ix rev path with
  | none => []
  | some source => (((exportPieces path source w).1.toOption.getD []).filterMap (Export.ofText? ·.1))

/-- A module that takes names from another one. -/
def Linked (target : String) : Prop :=
  ∃ e ∈ readExports ix rev w path, ∃ module, e.module? = some module ∧ Leads ix rev w path module target

/-- A module that takes all names from another one, which is not empty. -/
def Starred (target : String) : Prop :=
  ∃ module, .allFrom module ∈ readExports ix rev w path ∧ Leads ix rev w path module target ∧
    sourceOf ix rev target ≠ some []

/-- Below a module, every specifier stands for one file at most. -/
def Definite : Prop :=
  ∀ x, ReflTransGen (Linked ix rev w) path x → ∀ e ∈ readExports ix rev w x, ∀ module, e.module? = some module →
    ∀ files, filesOf ix rev w x module = some files → files.length ≤ 1

/-- A file has two directories above it. -/
def HasRoom : Prop := requireGrandparent path w = (.ok (), w)

/-- An export that cannot be followed: its specifier cannot be resolved, or names are taken and the file has no two
directories above it. -/
def Trips : Export → Prop
  | .declaration _ | .names _ => False
  | .namedFrom names module => names ≠ [] ∧ (¬ HasRoom w path ∨ filesOf ix rev w path module = none)
  | .allFrom module => filesOf ix rev w path module = none

/-- Below a module, an export cannot be followed. -/
def Stumbles : Prop :=
  ∃ x, ReflTransGen (Linked ix rev w) path x ∧ ∃ e ∈ readExports ix rev w x, Trips ix rev w x e

/-- The names that a module is read to have: a name that is taken from another module is looked for there as it is
exported. -/
def Listed : String → String → Prop := Provides (readExports ix rev w) (Leads ix rev w) ExportName.outer

/-- An export of a module is taken in, other modules being followed `depth` deep. -/
def Handled (depth : Nat) (path : String) (c : Collected) : Export → Prop
  | .declaration name => name ∈ c.keys
  | .names names => ∀ n ∈ names, n.outer ∈ c.keys
  | .namedFrom names module => ∀ n ∈ names, HasRoom w path ∧ filesOf ix rev w path module ≠ none ∧
    ∀ target source, Leads ix rev w path module target → sourceOf ix rev target = some source →
      ∃ d, collect ix rev depth target source [] w = (.ok d, w) ∧ (n.outer ∈ d.keys → n.outer ∈ c.keys)
  | .allFrom module => filesOf ix rev w path module ≠ none ∧
    ∀ target source, Leads ix rev w path module target → sourceOf ix rev target = some source → source ≠ [] →
      target ∈ c.visited

/-- A way by re-exports of all names that repeats no module and keeps off some of them. -/
structure StarWay (target : String) (avoided way : Strings) : Prop where
  start : way.head? = some path
  stop : way.getLast? = some target
  chain : way.IsChain (Starred ix rev w)
  nodup : way.Nodup
  avoids : ∀ x ∈ way, x ∉ avoided

/-- Each new module that was visited is at the end of a way, and when it is short enough, all exports of the module are
taken in. -/
def Reached (depth : Nat) (path : String) (visited : Strings) (c : Collected) (target : String) : Prop :=
  ∃ way, StarWay ix rev w path target visited way ∧ (way.length ≤ depth →
    ∀ e ∈ readExports ix rev w target, Handled ix rev w (depth - way.length) target c e)

/-- What one collection has explored. -/
structure Explored (depth : Nat) (path : String) (visited : Strings) (c : Collected) : Prop where
  sound : ∀ name ∈ c.keys, Listed ix rev w path name
  keeps : ∀ x ∈ visited, x ∈ c.visited
  self : path ∈ c.visited
  reached : ∀ x ∈ c.visited, x ∉ visited → Reached ix rev w depth path visited c x

/-- A collection explores, or stumbles over a module below. -/
def Collects (depth : Nat) (path : String) (visited : Strings) (r : Result Collected × Workspace) : Prop :=
  (∃ c, r = (.ok c, w) ∧ Explored ix rev w depth path visited c) ∨ ∃ e, r = (.error e, w) ∧ Stumbles ix rev w path

end

section

variable {ix : Index} {rev path module name target : String} {w : Workspace} {files : List String}

lemma steady_typescriptModuleFiles (ix q) : Steady (typescriptModuleFiles ix q) := by
  have hfiles : Steady (typescriptFiles q.module q.importer) := by
    unfold typescriptFiles
    refine .ite (.pure _) ?_
    split
    · exact .pure _
    · exact (steady_resolve _).bind fun _ => (steady_resolve _).bind fun _ => .pure _
  exact hfiles.bind fun _ => .pure _

lemma steady_requireGrandparent (path) : Steady (requireGrandparent path) := by
  unfold requireGrandparent
  exact .ite ((steady_resolve _).bind fun _ => .ite (.throw _) (.pure _)) (.pure _)

lemma moduleFiles_cases (ix rev path module name w) :
    ∃ r, typescriptModuleFiles ix { module, name, rev, importer := some path } w = (r, w) ∧
      filesOf ix rev w path module = r.toOption :=
  ⟨_, (steady_typescriptModuleFiles _ _).after w, rfl⟩

lemma moduleFiles_of_filesOf (h : filesOf ix rev w path module = some files) (name) :
    typescriptModuleFiles ix { module, name, rev, importer := some path } w = (.ok files, w) := by
  obtain ⟨r, hr, hfiles⟩ := moduleFiles_cases ix rev path module name w
  rw [hr]
  cases r <;> cases hfiles.symm.trans h
  rfl

lemma moduleFiles_of_filesOf_none (h : filesOf ix rev w path module = none) (name) :
    ∃ e, typescriptModuleFiles ix { module, name, rev, importer := some path } w = (.error e, w) := by
  obtain ⟨r, hr, hfiles⟩ := moduleFiles_cases ix rev path module name w
  cases r <;> cases hfiles.symm.trans h
  exact ⟨_, hr⟩

lemma present_of_moduleFiles {q} (h : typescriptModuleFiles ix q w = (.ok files, w)) (ht : target ∈ files) :
    present ix q.rev target := by
  obtain ⟨all, v, -, hall⟩ := bind_eq_ok h
  cases hall
  exact (mem_filter.1 ht).2

lemma sourceOf_of_bytesAt {blob source} (h : bytesAt ix rev path = .ok (some (blob, some source))) :
    sourceOf ix rev path = some source := by
  unfold sourceOf
  rw [h]

lemma bytesAt_of_sourceOf {source} (h : sourceOf ix rev path = some source) :
    ∃ blob, bytesAt ix rev path = .ok (some (blob, some source)) := by
  unfold sourceOf at h
  split at h
  · rename_i blob s hb
    exact ⟨blob, h ▸ hb⟩
  · cases h

lemma KeepsBytes.source (hb : KeepsBytes ix rev) (h : Leads ix rev w path module target) :
    ∃ source, sourceOf ix rev target = some source := by
  obtain ⟨blob, source, hsource⟩ := hb target (present_of_moduleFiles (moduleFiles_of_filesOf h "") mem_cons_self)
  exact ⟨source, sourceOf_of_bytesAt hsource⟩

/-- What a specifier below a module can be: one that cannot be resolved, that stands for no file, or for one. -/
lemma Definite.module_cases (hdef : Definite ix rev w path) (hb : KeepsBytes ix rev) {e}
    (he : e ∈ readExports ix rev w path) (hm : e.module? = some module) :
    filesOf ix rev w path module = none ∨ filesOf ix rev w path module = some [] ∨
      ∃ target source, Leads ix rev w path module target ∧ sourceOf ix rev target = some source ∧
        Linked ix rev w path target ∧ Definite ix rev w target := by
  rcases hfiles : filesOf ix rev w path module with _ | _ | ⟨target, _ | ⟨other, rest⟩⟩
  · exact .inl rfl
  · exact .inr (.inl rfl)
  · obtain ⟨source, hs⟩ := hb.source hfiles
    have hlink : Linked ix rev w path target := ⟨e, he, module, hm, hfiles⟩
    exact .inr (.inr ⟨target, source, hfiles, hs, hlink, fun x hx => hdef x (.head hlink hx)⟩)
  · have hlen := hdef path .refl e he module hm _ hfiles
    simp at hlen

/-- The pieces of a module can always be read: those of some nodes of its tree, or lines. -/
lemma exportPieces_apply (path source w) : ∃ nodes : List Syntax.Tree,
    exportPieces path source w = (.ok (if nodes.isEmpty then
      ((linesOf (Utf8.decodeDropping source)).filter (holds "export")).map (·, none)
      else nodes.map fun t => (t.text source, some (Graph.spanOf path source t))), w) := by
  unfold exportPieces
  rw [bind_apply, attempt_apply]
  have hparser : (∃ m, requireParser "typescript" w = (.error (.failed m), w)) ∨
      requireParser "typescript" w = (.ok (), w) := by
    unfold requireParser
    rw [bind_apply, get_apply]
    dsimp only
    split
    · exact .inl ⟨_, rfl⟩
    · exact .inr rfl
  rcases hparser with ⟨m, hm⟩ | hok
  · refine ⟨[], ?_⟩
    rw [hm]
    rfl
  · obtain ⟨t, ht⟩ := Index.treeOf_eq_ok source w
    refine ⟨t.preorder.filter (·.kind == "export_statement"), ?_⟩
    rw [hok]
    dsimp only
    rw [bind_of_ok ht, pure_bind]
    split <;> rfl

lemma exportPieces_eq {source} (h : sourceOf ix rev path = some source) :
    ∃ pieces, exportPieces path source w = (.ok pieces, w) ∧
      pieces.filterMap (Export.ofText? ·.1) = readExports ix rev w path := by
  obtain ⟨nodes, hp⟩ := exportPieces_apply path source w
  refine ⟨_, hp, ?_⟩
  unfold readExports
  rw [h]
  dsimp only
  rw [hp]
  rfl

lemma ofText?_empty : Export.ofText? "" = none := by decide +kernel

/-- An empty module exports nothing. -/
lemma readExports_of_empty (h : sourceOf ix rev path = some []) : readExports ix rev w path = [] := by
  obtain ⟨nodes, hp⟩ := exportPieces_apply path [] w
  unfold readExports
  rw [h]
  dsimp only
  rw [hp]
  change List.filterMap _ (if _ then _ else _) = []
  split
  · have hlines : linesOf (Utf8.decodeDropping []) = [] := by decide +kernel
    rw [hlines]
    rfl
  · refine filterMap_eq_nil_iff.2 fun p hp => ?_
    obtain ⟨t, -, rfl⟩ := mem_map.1 hp
    have htext : t.text [] = "" := by
      have hslice : Syntax.slice [] t.start t.stop = [] := by simp [Syntax.slice]
      rw [Syntax.Tree.text, hslice]
      decide +kernel
    dsimp only
    rw [htext, ofText?_empty]

end

/-! ## Following one export -/

section

variable {ix : Index} {rev path module name target : String} {w : Workspace} {c : Collected}
  {place : Option Graph.Span} {inner : Collector} {source : Bytes}

/-- Without a directory of the repository, the root stands for it. -/
lemma resolve_root {q : Request} (hq : q.root? = none) (w) :
    ∃ p, Files.resolve (ofString (q.root?.getD "/")) w = (.ok p, w) := by
  have hparts : (ofString "/").parts = [] := by decide +kernel
  have hclean : FileTree.holdsNull (ofString "/") = false := by decide +kernel
  have hwalk (here) : w.files.resolveParts w.files.entries.length [] here [] = (here, true) := by
    cases w.files.entries.length <;> rfl
  rw [hq, Option.getD_none]
  unfold Files.resolve
  rw [bind_apply, get_apply]
  dsimp only
  rw [ofExcept_apply, FileTree.resolve, hclean, if_neg (by decide), hparts, hwalk]
  exact ⟨_, rfl⟩

/-- Looking for a name in one file collects what the file exports. -/
lemma typescriptAmong_singleton {q all blob target} (hb : bytesAt ix q.rev target = .ok (some (blob, some source))) :
    typescriptAmong ix q inner all [target] w = match inner target source [] w with
      | (.ok d, v) => (.ok (match get? d.names q.name with
        | some p => found q "typescript" [typescriptHit q target p]
        | none => notExported q "typescript" all), v)
      | (.error e, v) => (.error e, v) := by
  rw [typescriptAmong, bind_apply, ofExcept_apply, hb]
  dsimp only
  rw [bind_apply]
  rcases inner target source [] w with ⟨e | d, v⟩
  · rfl
  · dsimp only
    cases get? d.names q.name <;> rfl

section

variable (inner) {q : Request} {p : Path} (hroot : Files.resolve (ofString (q.root?.getD "/")) w = (.ok p, w))

include hroot

lemma typescriptWith_of_error {e} (h : typescriptModuleFiles ix q w = (.error e, w)) :
    typescriptWith ix inner q w = (.error e, w) := by
  unfold typescriptWith
  rw [bind_of_ok hroot, bind_apply, h]

lemma typescriptWith_of_nil (h : typescriptModuleFiles ix q w = (.ok [], w)) :
    ∃ m details, typescriptWith ix inner q w = (.ok (.refused m details), w) := by
  unfold typescriptWith
  rw [bind_of_ok hroot, bind_apply, h]
  exact ⟨_, _, rfl⟩

lemma typescriptWith_of_singleton {target blob} (h : typescriptModuleFiles ix q w = (.ok [target], w))
    (hb : bytesAt ix q.rev target = .ok (some (blob, some source))) :
    typescriptWith ix inner q w = match inner target source [] w with
      | (.ok d, v) => (.ok (match get? d.names q.name with
        | some p => found q "typescript" [typescriptHit q target p]
        | none => notExported q "typescript" [target]), v)
      | (.error e, v) => (.error e, v) := by
  rw [← typescriptAmong_singleton hb]
  unfold typescriptWith
  rw [bind_of_ok hroot, bind_apply, h]
  rfl

end

/-- A name that is taken from a module which is not there is left out. -/
lemma collectNamed_of_nil (hroom : HasRoom w path) (hfiles : filesOf ix rev w path module = some []) :
    collectNamed ix rev inner path module place c name w = (.ok c, w) := by
  obtain ⟨p, hp⟩ := resolve_root (q := { module, name, rev, importer := some path }) rfl w
  obtain ⟨m, details, hwith⟩ := typescriptWith_of_nil inner hp (moduleFiles_of_filesOf hfiles name)
  unfold collectNamed
  rw [bind_of_ok hroom, bind_apply, hwith]
  rfl

/-- A name that is taken from a module is added when the module has it. -/
lemma collectNamed_of_leads (hroom : HasRoom w path)
    (ht : Leads ix rev w path module target) (hs : sourceOf ix rev target = some source) :
    collectNamed ix rev inner path module place c name w = match inner target source [] w with
      | (.ok d, v) => (.ok (if name ∈ d.keys then c.add place name else c), v)
      | (.error e, v) => (.error e, v) := by
  obtain ⟨p, hp⟩ := resolve_root (q := { module, name, rev, importer := some path }) rfl w
  obtain ⟨blob, hb⟩ := bytesAt_of_sourceOf hs
  have hwith := typescriptWith_of_singleton inner hp (moduleFiles_of_filesOf ht name) hb
  unfold collectNamed
  rw [bind_of_ok hroom, bind_apply, hwith]
  rcases inner target source [] w with ⟨e | d, v⟩
  · rfl
  · dsimp only
    cases hd : get? d.names name with
    | none =>
      have hk : name ∉ d.keys := by simp [← get?_names, hd]
      rw [if_neg hk]
      rfl
    | some q =>
      rw [if_pos (get?_names.1 ⟨q, hd⟩)]
      rfl

/-- Names cannot be taken from a module when the file has no two directories above it, or the specifier cannot be
resolved. -/
lemma collectNamed_of_trips (h : ¬ HasRoom w path ∨ filesOf ix rev w path module = none) :
    ∃ e, collectNamed ix rev inner path module place c name w = (.error e, w) := by
  unfold collectNamed
  rw [bind_apply]
  have hsteady := (steady_requireGrandparent path).after w
  cases hg : (requireGrandparent path w).1 with
  | error e =>
    rw [hg] at hsteady
    rw [hsteady]
    exact ⟨e, rfl⟩
  | ok u =>
    rw [hg] at hsteady
    obtain ⟨p, hp⟩ := resolve_root (q := { module, name, rev, importer := some path }) rfl w
    obtain ⟨e, he⟩ := moduleFiles_of_filesOf_none (h.resolve_left (not_not_intro hsteady)) name
    refine ⟨e, ?_⟩
    rw [hsteady]
    dsimp only
    rw [bind_apply, typescriptWith_of_error inner hp he]

/-- All names of a module that is not empty are added. -/
lemma collectAll_of_leads (ht : Leads ix rev w path module target)
    (hs : sourceOf ix rev target = some source) (hne : source ≠ []) :
    collectAll ix rev inner path module place c w = match inner target source c.visited w with
      | (.ok d, v) => (.ok (d.names.foldl (fun c n => c.addKeeping place n.1) { c with visited := d.visited }), v)
      | (.error e, v) => (.error e, v) := by
  obtain ⟨blob, hb⟩ := bytesAt_of_sourceOf hs
  unfold collectAll
  rw [bind_of_ok (moduleFiles_of_filesOf ht "")]
  dsimp only
  rw [bind_apply, ofExcept_apply, hb]
  cases source with
  | nil => exact absurd rfl hne
  | cons b source =>
    dsimp only
    rw [bind_apply]
    rcases inner target (b :: source) c.visited w with ⟨e | d, v⟩ <;> rfl

lemma collectAll_of_trips (h : filesOf ix rev w path module = none) :
    ∃ e, collectAll ix rev inner path module place c w = (.error e, w) := by
  obtain ⟨e, he⟩ := moduleFiles_of_filesOf_none h ""
  unfold collectAll
  rw [bind_apply, he]
  exact ⟨e, rfl⟩

/-- Nothing is added from a module that is empty or not there. -/
lemma collectAll_of_nothing {files} (hfiles : filesOf ix rev w path module = some files)
    (hnone : files = [] ∨ ∃ target, files = [target] ∧ sourceOf ix rev target = some []) :
    collectAll ix rev inner path module place c w = (.ok c, w) := by
  unfold collectAll
  rw [bind_apply, moduleFiles_of_filesOf hfiles ""]
  rcases hnone with rfl | ⟨target, rfl, hs⟩
  · rfl
  · obtain ⟨blob, hb⟩ := bytesAt_of_sourceOf hs
    dsimp only
    rw [bind_apply, ofExcept_apply, hb]
    rfl

end

/-! ## Going through a module -/

section

variable {ix : Index} {rev path : String} {w : Workspace} {depth : Nat} {visited : List String}

lemma starWay_self (hv : path ∉ visited) : StarWay ix rev w path path visited [path] where
  start := rfl
  stop := rfl
  chain := .singleton path
  nodup := nodup_cons.2 ⟨not_mem_nil, nodup_nil⟩
  avoids := fun _ hx => mem_singleton.1 hx ▸ hv

lemma StarWay.cons {target x avoided way} (h : StarWay ix rev w target x avoided way)
    (hs : Starred ix rev w path target) (hp : path ∈ avoided) (hv : path ∉ visited)
    (hsub : ∀ y ∈ visited, y ∈ avoided) : StarWay ix rev w path x visited (path :: way) where
  start := rfl
  stop := by
    cases way with
    | nil => cases h.start
    | cons y way => rw [getLast?_cons_cons, h.stop]
  chain := by
    refine isChain_cons.2 ⟨fun y hy => ?_, h.chain⟩
    rw [h.start] at hy
    cases hy
    exact hs
  nodup := nodup_cons.2 ⟨fun hw => h.avoids path hw hp, h.nodup⟩
  avoids := by
    intro y hy hyv
    rcases mem_cons.1 hy with rfl | hy
    · exact hv hyv
    · exact h.avoids y hy (hsub y hyv)

lemma Handled.mono {c d e} (h : Handled ix rev w depth path c e) (hcd : c.Within d) :
    Handled ix rev w depth path d e := by
  cases e with
  | declaration name => exact hcd.keys name h
  | names names => exact fun n hn => hcd.keys _ (h n hn)
  | namedFrom names module =>
    intro n hn
    obtain ⟨hroom, hfiles, hall⟩ := h n hn
    refine ⟨hroom, hfiles, fun target source ht hs => ?_⟩
    obtain ⟨b, hb, hk⟩ := hall target source ht hs
    exact ⟨b, hb, fun hn => hcd.keys _ (hk hn)⟩
  | allFrom module => exact ⟨h.1, fun target source ht hs hne => hcd.visited _ (h.2 target source ht hs hne)⟩

lemma Reached.mono {c d target} (h : Reached ix rev w depth path visited c target) (hcd : c.Within d) :
    Reached ix rev w depth path visited d target := by
  obtain ⟨way, hway, hall⟩ := h
  exact ⟨way, hway, fun hl e he => (hall hl e he).mono hcd⟩

/-- A module is gone through: what was taken in so far, and the exports that are done. -/
structure Gathering (ix : Index) (rev : String) (w : Workspace) (depth : Nat) (path : String) (visited : Strings)
    (done : List Export) (c : Collected) : Prop where
  fresh : path ∉ visited
  sound : ∀ name ∈ c.keys, Listed ix rev w path name
  keeps : ∀ x ∈ visited, x ∈ c.visited
  self : path ∈ c.visited
  reached : ∀ x ∈ c.visited, x ∉ visited → x ≠ path → Reached ix rev w (depth + 1) path visited c x
  handled : ∀ e ∈ done, Handled ix rev w depth path c e

/-- Going through an export goes on, or stumbles. -/
def Goes (ix : Index) (rev : String) (w : Workspace) (path : String) (goal : Collected → Prop)
    (r : Result Collected × Workspace) : Prop :=
  (∃ c, r = (.ok c, w) ∧ goal c) ∨ ∃ e, r = (.error e, w) ∧ Stumbles ix rev w path

namespace Gathering

variable {done : List Export} {c : Collected} {names : List ExportName} {n : ExportName} {module : String} {e : Export}

section

variable (h : Gathering ix rev w depth path visited done c)

include h

lemma add {name} (hn : Listed ix rev w path name)
    (place) : Gathering ix rev w depth path visited done (c.add place name) where
  fresh := h.fresh
  sound := fun x hx => (mem_keys_add.1 hx).elim (fun e => e ▸ hn) (h.sound x)
  keeps := fun x hx => (within_add c place name).visited x (h.keeps x hx)
  self := (within_add c place name).visited path h.self
  reached := fun x hx hv hp => (h.reached x (visited_add ▸ hx) hv hp).mono (within_add c place name)
  handled := fun e he => (h.handled e he).mono (within_add c place name)

/-- All names of a list are added. -/
lemma addAll (place) (hn : ∀ n ∈ names, Listed ix rev w path n.outer) :
    Gathering ix rev w depth path visited done (names.foldl (fun c n => c.add place n.outer) c) ∧
      c.Within (names.foldl (fun c n => c.add place n.outer) c) ∧
      ∀ n ∈ names, n.outer ∈ (names.foldl (fun c n => c.add place n.outer) c).keys := by
  induction names generalizing c with
  | nil => exact ⟨h, .refl c, by simp⟩
  | cons n names ih =>
    obtain ⟨hg, hw, hk⟩ := ih (h.add (hn n mem_cons_self) place) fun m hm => hn m (mem_cons_of_mem _ hm)
    refine ⟨hg, (within_add c place n.outer).trans hw, forall_mem_cons.2 ⟨?_, hk⟩⟩
    exact hw.keys _ (mem_keys_add.2 (.inl rfl))

lemma snoc (he : Handled ix rev w depth path c e) : Gathering ix rev w depth path visited (done ++ [e]) c where
  fresh := h.fresh
  sound := h.sound
  keeps := h.keeps
  self := h.self
  reached := h.reached
  handled := fun x hx => (mem_append.1 hx).elim (h.handled x) fun hx => mem_singleton.1 hx ▸ he

/-- The exports of another module are joined to what was taken in. -/
lemma join {module target} {d : Collected}
    (hex : Explored ix rev w depth target c.visited d) (he : .allFrom module ∈ readExports ix rev w path)
    (ht : Leads ix rev w path module target) (hne : sourceOf ix rev target ≠ some []) (place) :
    Gathering ix rev w depth path visited done
      (d.names.foldl (fun c n => c.addKeeping place n.1) { c with visited := d.visited }) := by
  have hd : d.Within (d.names.foldl (fun c n => c.addKeeping place n.1) { c with visited := d.visited }) :=
    ⟨fun x hx => mem_keys_foldl_addKeeping.2 (.inl hx), fun x hx => by
      rwa [visited_foldl_addKeeping]⟩
  have hc : c.Within (d.names.foldl (fun c n => c.addKeeping place n.1) { c with visited := d.visited }) :=
    ⟨fun x hx => mem_keys_foldl_addKeeping.2 (.inr hx), fun x hx => hd.visited x (hex.keeps x hx)⟩
  refine ⟨h.fresh, ?_, fun x hx => hc.visited x (h.keeps x hx), hc.visited path h.self, ?_, fun e he =>
    (h.handled e he).mono hc⟩
  · intro x hx
    exact (mem_keys_foldl_addKeeping.1 hx).elim (fun hx => .all he ht (hex.sound x hx)) (h.sound x)
  · intro x hx hv hp
    by_cases hxc : x ∈ c.visited
    · exact (h.reached x hxc hv hp).mono hc
    · -- A way from the other module becomes one from this module, which was visited before.
      rw [visited_foldl_addKeeping] at hx
      obtain ⟨way, hway, hall⟩ := hex.reached x hx hxc
      refine ⟨path :: way, ?_, fun hl e he => ?_⟩
      · exact hway.cons ⟨module, he, ht, hne⟩ h.self h.fresh h.keeps
      · rw [length_cons, Nat.add_sub_add_right]
        exact (hall (Nat.le_of_succ_le_succ hl) e he).mono hd

end

section

variable (hb : KeepsBytes ix rev) (hdef : Definite ix rev w path)
  (ih : ∀ target source seen, sourceOf ix rev target = some source → Definite ix rev w target →
    Collects ix rev w depth target seen (collect ix rev depth target source seen w))

include hb hdef ih

section

variable (h : Gathering ix rev w depth path visited done c)

include h

section

variable (he : .namedFrom names module ∈ readExports ix rev w path)

include he

/-- Taking one name from another module. -/
lemma named (hn : n ∈ names) (place) :
    Goes ix rev w path (fun d => Gathering ix rev w depth path visited done d ∧ c.Within d ∧
        Handled ix rev w depth path d (.namedFrom [n] module))
      (collectNamed ix rev (collect ix rev depth) path module place c n.outer w) := by
  by_cases htrip : ¬ HasRoom w path ∨ filesOf ix rev w path module = none
  · obtain ⟨e, hrun⟩ := collectNamed_of_trips htrip
    exact .inr ⟨e, hrun, path, .refl, _, he, ne_nil_of_mem hn, htrip⟩
  · obtain ⟨hroom, hsome⟩ := not_or.1 htrip
    have hroom := not_not.1 hroom
    rcases hdef.module_cases hb he (Export.module?_namedFrom hn module) with
      hfiles | hfiles | ⟨target, source, ht, hs, hlink, htarget⟩
    · exact absurd hfiles hsome
    · refine .inl ⟨c, collectNamed_of_nil hroom hfiles, h, .refl c, fun m hm => ⟨hroom, hsome, ?_⟩⟩
      intro target source ht hs
      exact absurd (hfiles.symm.trans ht) (by simp)
    · have hrun : collectNamed ix rev (collect ix rev depth) path module place c n.outer w = _ :=
        collectNamed_of_leads hroom ht hs
      rcases ih target source [] hs htarget with ⟨d, hd, hex⟩ | ⟨e, hd, x, hx, hstumble⟩
      · rw [hd] at hrun
        -- The specifier leads to this one file, so the collection of its exports is the one that counts.
        have hdone (b) (hk : n.outer ∈ d.keys → n.outer ∈ b.keys) :
            Handled ix rev w depth path b (.namedFrom [n] module) := by
          intro m hm
          rw [mem_singleton] at hm
          subst hm
          refine ⟨hroom, hsome, fun target' source' ht' hs' => ?_⟩
          obtain rfl : target = target' := by simpa using ht.symm.trans ht'
          obtain rfl : source = source' := by simpa using hs.symm.trans hs'
          exact ⟨d, hd, hk⟩
        dsimp only at hrun
        split at hrun <;> rename_i hk
        · exact .inl ⟨_, hrun, h.add (.named he hn ht (hex.sound _ hk)) place, within_add c place n.outer,
            hdone _ fun _ => mem_keys_add.2 (.inl rfl)⟩
        · exact .inl ⟨c, hrun, h, .refl c, hdone c fun hn => absurd hn hk⟩
      · rw [hd] at hrun
        exact .inr ⟨e, hrun, x, .head hlink hx, hstumble⟩

/-- Taking several names from another module. -/
lemma namedAll (place) {l : List ExportName} (hl : ∀ n ∈ l, n ∈ names) :
    Goes ix rev w path (fun d => Gathering ix rev w depth path visited done d ∧ c.Within d ∧
        Handled ix rev w depth path d (.namedFrom l module))
      (l.foldlM (fun c n => collectNamed ix rev (collect ix rev depth) path module place c n.outer) c w) := by
  induction l generalizing c with
  | nil => exact .inl ⟨c, rfl, h, .refl c, fun n hn => absurd hn not_mem_nil⟩
  | cons n l ihl =>
    rw [foldlM_cons, bind_apply]
    rcases h.named hb hdef ih he (hl n mem_cons_self) place with ⟨d, hd, hg, hw, hh⟩ | ⟨e, hd, hstumble⟩
    · rw [hd]
      rcases ihl hg fun m hm => hl m (mem_cons_of_mem _ hm) with ⟨b, hrun, hg', hw', hh'⟩ | ⟨e, hrun, hstumble⟩
      · exact .inl ⟨b, hrun, hg', hw.trans hw', forall_mem_cons.2 ⟨hh.mono hw' n mem_cons_self, hh'⟩⟩
      · exact .inr ⟨e, hrun, hstumble⟩
    · rw [hd]
      exact .inr ⟨e, rfl, hstumble⟩

end

/-- Taking all names from another module. -/
lemma all (he : .allFrom module ∈ readExports ix rev w path) (place) :
    Goes ix rev w path (fun d => Gathering ix rev w depth path visited done d ∧
        Handled ix rev w depth path d (.allFrom module))
      (collectAll ix rev (collect ix rev depth) path module place c w) := by
  rcases hdef.module_cases hb he rfl with hfiles | hfiles | ⟨target, source, ht, hs, hlink, htarget⟩
  · obtain ⟨e, hrun⟩ := collectAll_of_trips hfiles
    exact .inr ⟨e, hrun, path, .refl, _, he, hfiles⟩
  · refine .inl ⟨c, collectAll_of_nothing hfiles (.inl rfl), h, ?_, ?_⟩
    · rw [hfiles]
      exact Option.some_ne_none _
    · intro target source ht
      exact absurd (hfiles.symm.trans ht) (by simp)
  · have hdone (b) (hk : source ≠ [] → target ∈ b.visited) : Handled ix rev w depth path b (.allFrom module) := by
      refine ⟨by rw [ht]; exact Option.some_ne_none _, fun target' source' ht' hs' hne => ?_⟩
      obtain rfl : target = target' := by simpa using ht.symm.trans ht'
      obtain rfl : source = source' := by simpa using hs.symm.trans hs'
      exact hk hne
    by_cases hne : source = []
    · exact .inl ⟨c, collectAll_of_nothing ht (.inr ⟨target, rfl, hne ▸ hs⟩), h, hdone c fun h => absurd hne h⟩
    · have hrun : collectAll ix rev (collect ix rev depth) path module place c w = _ :=
        collectAll_of_leads ht hs hne
      rcases ih target source c.visited hs htarget with ⟨d, hd, hex⟩ | ⟨e, hd, x, hx, hstumble⟩
      · rw [hd] at hrun
        exact .inl ⟨_, hrun, h.join hex he ht (by rw [hs]; simpa using hne) place,
          hdone _ fun _ => by rw [visited_foldl_addKeeping]; exact hex.self⟩
      · rw [hd] at hrun
        exact .inr ⟨e, hrun, x, .head hlink hx, hstumble⟩

/-- Taking in one piece. -/
lemma piece {piece} (hp : ∀ e, Export.ofText? piece.1 = some e → e ∈ readExports ix rev w path) :
    Goes ix rev w path (Gathering ix rev w depth path visited (done ++ (Export.ofText? piece.1).toList))
      (collectPiece ix rev (collect ix rev depth) path c piece w) := by
  unfold collectPiece
  cases he : Export.ofText? piece.1 with
  | none => exact .inl ⟨c, rfl, by simpa using h⟩
  | some e =>
    have hmem := hp e he
    cases e with
    | declaration name => exact .inl ⟨_, rfl, (h.add (.declared hmem) piece.2).snoc (mem_keys_add.2 (.inl rfl))⟩
    | names names =>
      obtain ⟨hg, -, hk⟩ := h.addAll piece.2 fun n hn => .listed hmem hn
      exact .inl ⟨_, rfl, hg.snoc hk⟩
    | namedFrom names module =>
      rcases h.namedAll hb hdef ih hmem piece.2 fun n hn => hn with ⟨d, hd, hg, -, hh⟩ | hstumble
      · exact .inl ⟨d, hd, hg.snoc hh⟩
      · exact .inr hstumble
    | allFrom module =>
      rcases h.all hb hdef ih hmem piece.2 with ⟨d, hd, hg, hh⟩ | hstumble
      · exact .inl ⟨d, hd, hg.snoc hh⟩
      · exact .inr hstumble

/-- Taking in all pieces. -/
lemma pieces {l : List (String × Option Graph.Span)}
    (hl : ∀ e ∈ l.filterMap (Export.ofText? ·.1), e ∈ readExports ix rev w path) :
    Goes ix rev w path (Gathering ix rev w depth path visited (done ++ l.filterMap (Export.ofText? ·.1)))
      (l.foldlM (collectPiece ix rev (collect ix rev depth) path) c w) := by
  induction l generalizing done c with
  | nil => exact .inl ⟨c, rfl, by simpa using h⟩
  | cons piece l ihl =>
    have hmem (e : Export) (he : Export.ofText? piece.1 = some e) : e ∈ readExports ix rev w path :=
      hl e (mem_filterMap.2 ⟨piece, mem_cons_self, he⟩)
    have hsplit : done ++ (piece :: l).filterMap (Export.ofText? ·.1) =
        done ++ (Export.ofText? piece.1).toList ++ l.filterMap (Export.ofText? ·.1) := by
      rw [filterMap_cons, append_assoc]
      cases Export.ofText? piece.1 <;> rfl
    rw [foldlM_cons, bind_apply, hsplit]
    rcases h.piece hb hdef ih hmem with ⟨d, hd, hg⟩ | ⟨e, hd, hstumble⟩
    · rw [hd]
      refine ihl hg fun e he => hl e ?_
      obtain ⟨p, hp, he⟩ := mem_filterMap.1 he
      exact mem_filterMap.2 ⟨p, mem_cons_of_mem _ hp, he⟩
    · rw [hd]
      exact .inr ⟨e, rfl, hstumble⟩

end

end

lemma start (hv : path ∉ visited) : Gathering ix rev w depth path visited [] { visited := visited ++ [path] } where
  fresh := hv
  sound := nofun
  keeps := fun _ h => mem_append_left _ h
  self := mem_append_right _ mem_cons_self
  reached := fun _ hx hxv hp => (mem_append.1 hx).elim (fun h => absurd h hxv) fun h => absurd (mem_singleton.1 h) hp
  handled := nofun

/-- A module that is gone through has been explored. -/
lemma explored (h : Gathering ix rev w depth path visited (readExports ix rev w path) c) :
    Explored ix rev w (depth + 1) path visited c where
  sound := h.sound
  keeps := h.keeps
  self := h.self
  reached := by
    intro x hx hv
    by_cases hp : x = path
    · subst hp
      exact ⟨[x], starWay_self h.fresh, fun _ e he => h.handled e he⟩
    · exact h.reached x hx hv hp

end Gathering

lemma explored_of_visited (hv : path ∈ visited) : Explored ix rev w depth path visited { visited } where
  sound := nofun
  keeps := fun _ h => h
  self := hv
  reached := fun _ hx hn => absurd hx hn

/-- A collection explores the modules below, unless it stumbles. -/
lemma collect_collects (hb : KeepsBytes ix rev) (depth) {path} {source}
    (visited) (hs : sourceOf ix rev path = some source) (hdef : Definite ix rev w path) :
    Collects ix rev w depth path visited (collect ix rev depth path source visited w) := by
  induction depth generalizing path source visited with
  | zero =>
    rw [collect]
    refine .inl ⟨_, rfl, ?_⟩
    split <;> rename_i hv
    · exact explored_of_visited (by simpa using hv)
    · have hv : path ∉ visited := by simpa using hv
      refine ⟨nofun, fun _ h => mem_append_left _ h,
        mem_append_right _ mem_cons_self, forall_mem_append.2 ⟨fun _ => absurd, forall_mem_singleton.2 fun _ => ?_⟩⟩
      exact ⟨[path], starWay_self hv, fun hl => absurd hl (by simp)⟩
  | succ depth ih =>
    rw [collect]
    split <;> rename_i hv
    · exact .inl ⟨_, rfl, explored_of_visited (by simpa using hv)⟩
    · have hv : path ∉ visited := by simpa using hv
      obtain ⟨pieces, hp, hread⟩ := exportPieces_eq (w := w) hs
      rw [bind_apply, hp]
      have hrun := (Gathering.start hv).pieces hb hdef (fun target source seen hs hd => ih seen hs hd) (l := pieces)
        fun e he => hread ▸ he
      rw [nil_append, hread] at hrun
      rcases hrun with ⟨c, hc, hg⟩ | hstumble
      · exact .inl ⟨c, hc, hg.explored⟩
      · exact .inr hstumble

end

/-! ## Nested calls -/

/-- Collects what a file exports with calls that nest at most `limit` deep: those that would nest deeper are left to
`beyond`. A depth that is used up, or was negative at the start, follows no module. -/
def collectNested (ix : Index) (rev : String) (beyond : Collector) : Nat → Int → Collector
  | 0, _, path, source, visited => beyond path source visited
  | limit + 1, depth, path, source, visited => do
    if visited.contains path then return { visited }
    if depth ≤ 0 then return { visited := visited ++ [path] }
    let pieces ← exportPieces path source
    pieces.foldlM (collectPiece ix rev (collectNested ix rev beyond limit (depth - 1)) path)
      { visited := visited ++ [path] }

/-- Each call, also one that starts with nothing visited, has less depth left than the one it is nested in. -/
lemma collectNested_eq (ix rev beyond) (limit : Nat) (depth : Int) (h : max 0 depth + 1 ≤ limit) :
    collectNested ix rev beyond limit depth = collect ix rev depth.toNat := by
  induction limit generalizing depth with
  | zero => omega
  | succ limit ih =>
    funext path source visited
    rw [collectNested]
    by_cases hd : depth ≤ 0
    · rw [Int.toNat_of_nonpos hd, collect, if_pos hd]
      split <;> rfl
    · obtain ⟨n, hn⟩ : ∃ n, depth.toNat = n + 1 := ⟨depth.toNat - 1, by omega⟩
      have hn' : (depth - 1).toNat = n := by omega
      rw [hn, collect, ih (depth - 1) (by omega), hn', if_neg hd]

/-- Resolving a name through modules that export what others do ends, with at most `max 0 depth + 1` nested calls of the
collector: what stands beyond that many is never called. -/
theorem reexports_nest_within (ix : Index) (q : Request) (depth : Int) (beyond : Collector) (more : Nat) :
    collectNested ix q.rev beyond ((max 0 depth + 1).toNat + more) depth = collect ix q.rev depth.toNat ∧
      typescript ix q (.ok depth) =
        typescriptWith ix (collectNested ix q.rev beyond ((max 0 depth + 1).toNat + more) depth) q := by
  rw [collectNested_eq ix q.rev beyond _ depth (by omega)]
  exact ⟨rfl, rfl⟩

end PatchReview.Import
