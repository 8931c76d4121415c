import PatchReview.Index.Query
import PatchReview.Import.Closure
import PatchReview.Repository.Git

/-!
# The index of a change

Every change has an index of its own, named after its two revisions and its diff. It holds the files that the change
depends on, at both revisions. A finished index is used again, and a new one starts from the newest that is there.
-/

namespace PatchReview.Index

/-!
## Indexing a repository

Every file of a known language is entered under a revision. Its graph is built only when its content is new;
at the end the calls are matched over all files.
-/

open Action Files Repository

structure BuildOptions where
  scan : ScanOptions := {}
  policy : Graph.Policy := Graph.Policy.standard
  keepBytes : Bool := false
  paths : Option (List Path) := none

def callSitesOf (g : Graph) : List CallSite :=
  g.calls.map fun e =>
    if e.unresolved then ⟨e.src, e.dst, none, 0, e.attrs⟩
    else ⟨e.src, ((Fields.get? g.symbols e.dst).map (·.name)).getD "", some e.dst, 1, e.attrs⟩

def artifactsOf (policy : Graph.Policy) (f : ParsedFile) : Artifacts :=
  let g := (Graph.build policy false [f]).withDefUse f
  { nodes := g.nodes.map (·.2)
    edges := g.edges
    symbols := g.symbols.map (·.2)
    calls := callSitesOf g
    document := some (f.path, Utf8.decodeDropping f.source) }

def chosenFiles (o : ScanOptions) (paths : List Path) : Action (List (String × List Path)) := do
  let groups ← paths.foldlM (fun groups p => do
    match ← attempt (resolve p) with
    | .error _ => return groups
    | .ok q =>
      match ← scanned? o q with
      | some lang => return addTo groups lang q
      | none => return groups) []
  return groups.map fun (lang, ps) => (lang, sortOn Path.toString ps)

def addFile (o : BuildOptions) (rev lang : String) (ix : Index) (path : Path) : Action Index := do
  match ← attempt (readBytes path) with
  | .error _ => return ix
  | .ok source =>
    let blob := Sha256.hexDigest source
    let full := (← resolve path).toString
    let (ix, id) := ix.upsertFile full lang
    let ix ← Action.ofExcept (ix.upsertVersion rev id blob source.length)
    let ix := if o.keepBytes then ix.upsertBlob blob source true else ix
    if ix.hasArtifacts blob then return ix
    let root ← treeOf source
    let f : ParsedFile := ⟨full, lang, source, blob, root⟩
    Action.ofExcept (ix.putArtifacts id blob lang (artifactsOf o.policy f))

def addLanguage (o : BuildOptions) (rev : String) (ix : Index) (group : String × List Path) : Action Index := do
  let lang ← Action.ofExcept (Syntax.Language.normal group.1)
  requireParser lang
  group.2.foldlM (addFile o rev lang) ix

def addRepository (ix : Index) (root : Path) (rev : String) (base : Option String)
    (o : BuildOptions) : Action Index := do
  let ix := ix.beginRevision rev base (← now)
  let groups ← match o.paths with
    | none => scan root o.scan
    | some paths => chosenFiles o.scan paths
  let ix ← groups.foldlM (addLanguage o rev) ix
  return ix.resolveCalls none

/-!
## Indexes in files

An index lives in a file. Opening a path makes an empty one there when there is none.
-/

def openAt (p : Path) : Action Index := do
  if ← isFile p then
    match ← content p with
    | .index ix => return ix
    | .bytes [] => return {}
    | .bytes _ => throw .notDatabase
  else
    makeDirectories p.parent
    writeContent p (.index {})
    return {}

/-- Changes the index at a path; a fault leaves it as it was. -/
def changeAt {α : Type} (p : Path) (f : Index → Action (Index × α)) : Action α := do
  let (ix, a) ← f (← openAt p)
  writeContent p (.index ix)
  return a

open Action Files Repository

variable (ix : Index) (p : Path) (key : String) (directory repo : Path)

/-- Where an index stands below a directory. -/
def storePaths : Path × Path := (directory / ".lite_cpg", directory / ".lite_cpg" / "cpg.sqlite")

/-- The commit that a reference names, none when git fails. -/
def commitOf (ref : String) : Action (Option String) := do
  match ← attempt (git repo ["rev-parse", ref]) with
  | .ok r => return some (strip r.out)
  | .error _ => return none

/-- The tables in a file; a file that is missing is made, and an empty one has no tables. -/
def tablesAt : Action (Option Index) := do
  if !(← present p) then
    writeBytes p []
    return none
  match ← content p with
  | .index ix => return some ix
  | .bytes [] => return none
  | .bytes _ => throw .notDatabase

def fact? : Option String := Fields.get? ix.facts key

/-- A fact about the index in a file, none when there is none to be had. -/
def factAt : Action (Option String) := do
  match ← attempt (tablesAt p) with
  | .ok (some ix) => return ix.fact? key
  | _ => return none

structure Purpose where
  base : Option String
  head : Option String
  diff : String
  scope : Option String := none
  depth : Option Int := none
  files : Option Int := none

/-- Whether a fact, when it is there, is the wanted one. -/
def agrees (wanted : Option String) : Bool :=
  match (ix.fact? key).filter (· != ""), wanted.filter (· != "") with
  | some v, some w => v == w
  | _, _ => true

/-- Whether a number among the facts, when it is there, is the wanted one. -/
def agreesInt (wanted : Option Int) : Bool :=
  match (ix.fact? key).filter (· != ""), wanted with
  | some v, some n => Number.readInt? v == some n
  | _, _ => true

/-- Whether an index is finished for a purpose: it has both revisions with files and nodes, and no fact speaks
against it. -/
def isReady (q : Purpose) : Bool :=
  ix.hasRevision "base" && ix.hasRevision "head" && !ix.nodes.isEmpty
    && ix.versions.any (·.rev == "base") && ix.versions.any (·.rev == "head")
    && ((ix.fact? "diff_sha12").filter (· != "")).all (· == q.diff)
    && ix.agrees "base_sha" q.base && ix.agrees "head_sha" q.head && ix.agrees "cpg_scope" q.scope
    && ix.agreesInt "cpg_dep_depth" q.depth && ix.agreesInt "cpg_dep_max_files" q.files

def readyAt (q : Purpose) : Action Bool := do
  if (← isDirectory p) || !(← isDirectory p.parent) then return false
  match ← tablesAt p with
  | none => throw (.operation "no such table: revisions")
  | some ix => return ix.isReady q

def indexesIn : Action (List Path) := do
  let names := ((← list directory).map (·.1)).filter (finishesWith ".sqlite")
  let timed ← names.mapM fun (n : String) => do return (directory / n, ← modified (directory / n))
  return (timed.mergeSort fun a b => b.2 ≤ a.2).map (·.1)

/-- An index to start from: one of the same scope, of the same revisions when there is one, else the
newest. -/
def seedIn (base head scope : Option String) : Action (Option Path) := do
  if !(← present directory) then return none
  let all ← indexesIn directory
  let fitting ← match scope.filter (· != "") with
    | none => pure all
    | some s => all.filterM fun p => do return (← factAt p "cpg_scope") == some s
  let same := match base.filter (· != ""), head.filter (· != "") with
    | some b, some h => fitting.find? fun p => beginsWith s!"{takeChars 12 b}_{takeChars 12 h}_" p.name
    | _, _ => none
  return same <|> fitting.head?

def numberVariable (name : String) (default : Int) : Action Int := do
  match ← envVar? name with
  | none => return default
  | some s => return (Number.readInt? s).getD default

/-- The files of a diff in a known language, each once. -/
def changedFiles (diff : String) : Action (List Path) := do
  let w ← get
  let files := (pathsInDiff none diff).filterMap fun (r : String) =>
    match w.files.resolve w.cwd (repo / r) with
    | .ok p => if (Syntax.Language.ofPath? p).isSome then some p else none
    | .error _ => none
  return files.foldl (fun acc p => if acc.contains p then acc else acc ++ [p]) []

/-- Checks out a revision and indexes what the change depends on there. -/
def addRevision (ref rev : String) (base : Option String) (reach : Import.Reach)
    (seeds : List Path) (keepBytes : Bool) : Action Unit := do
  ensureHead repo ref
  let files ← Action.ofExcept (Import.closure (← get) {} repo reach seeds)
  changeAt p fun ix => do
    return (← ix.addRepository repo rev base { keepBytes, paths := some files }, ())

def revisionPart (commit : Option String) (ref : String) : String :=
  takeChars 12 ((commit.filter (· != "")).getD (substitute "/" "_" ref))

structure Change where
  home : Path
  repo : Path
  base : String
  head : String
  diff : String
  deriving DecidableEq

/-- Fills an index with both revisions, and ends on the head whatever happens. -/
def addChange (c : Change) (reach : Import.Reach) (keepBytes : Bool) : Action Unit := do
  let seeds ← changedFiles c.repo c.diff
  let _ ← openAt p
  let result ← attempt do
    addRevision p c.repo c.base "base" none reach seeds keepBytes
    addRevision p c.repo c.head "head" (some "base") reach seeds keepBytes
  match ← attempt (ensureHead c.repo c.head) with
  | .ok _ => pure ()
  | .error e => if e.isError then pure () else throw e
  Action.ofExcept result

/-- What a call for the index of a change goes by: the change with its places resolved, where its index is, the commits
that are compared, and how far the files of the change reach. -/
structure Plan where
  change : Change
  directory : Path
  file : String
  base : Option String
  head : Option String
  diff : String
  depth : Int
  files : Int
  deriving DecidableEq

namespace Plan

variable (l : Plan)

def path : Path := l.directory / l.file

def purpose : Purpose := ⟨l.base, l.head, l.diff, some "pr", some l.depth, some l.files⟩

def make (c : Change) : Action Plan := do
  let home ← resolve c.home
  let repo ← resolve c.repo
  let depth ← numberVariable "LITE_CPG_DEP_DEPTH" 5
  let files ← numberVariable "LITE_CPG_DEP_MAX_FILES" 2000
  let name ← nameOf repo
  let base ← commitOf repo c.base
  let head ← commitOf repo c.head
  let diff := takeChars 12 (Sha256.hexDigest (utf8 c.diff))
  return { change := { c with home, repo }, directory := home / ".storage" / "lite_cpg" / name,
           file := s!"{revisionPart base c.base}_{revisionPart head c.head}_{diff}.sqlite",
           base, head, diff, depth := max 0 depth, files := max 1 files }

def enter : Action Unit := do
  makeDirectories l.directory
  if ← present l.path then return
  match ← seedIn l.directory l.base l.head (some "pr") with
  | some seed => copy seed l.path
  | none => let _ ← openAt l.path

def announce : Action Unit := do
  setVariable "LITE_CPG_DB_PATH" l.path.toString
  if (← envVar? "LITE_CPG_DEFAULT_REV").isNone then
    setVariable "LITE_CPG_DEFAULT_REV" "head"
  dropVariable "LITE_CPG_INDEX_ERROR"
  dropVariable "LITE_CPG_INDEX_SKIPPED"

def noted (ix : Index) : Index :=
  let known := [("diff_sha12", some l.diff), ("cpg_scope", some "pr"), ("cpg_dep_depth", some (toString l.depth)),
    ("cpg_dep_max_files", some (toString l.files)), ("base_sha", l.base.filter (· != "")),
    ("head_sha", l.head.filter (· != ""))]
  known.foldl (fun ix (key, value) => value.elim ix (ix.setFact key)) ix

def note : Action Unit := do
  match ← attempt (tablesAt l.path) with
  | .ok (some ix) => let _ ← attempt (writeContent l.path (.index (l.noted ix)))
  | _ => pure ()

end Plan

def prepare (c : Change) (keepBytes : Bool) : Action Path := do
  let l ← Plan.make c
  l.enter
  l.announce
  if ← readyAt l.path l.purpose then
    setVariable "LITE_CPG_INDEX_SKIPPED" "1"
  else
    addChange l.path l.change ⟨l.depth.toNat, l.files.toNat⟩ keepBytes
    l.note
  return l.path

end PatchReview.Index
