import PatchReview.Python.Statement
import PatchReview.Repository.Scan
import PatchReview.Pattern.Regex.Reader

/-!
# What a change depends on

Files import others; from the changed files the imports are followed to a depth and up to a number of files.
-/

namespace PatchReview.Import

open Files Path

/-!
## Files a module may stand for

Where a module can live, by the rules of its language, before asking which of the files are there.
-/

/-- The files of a Python module: a file of that name, or a package. A module with dots in front is looked for beside the
file that imports it. -/
def pythonFiles (module root : String) (importer : Option String) : Action Strings := do
  let m := strip module
  if beginsWith "." m then
    match importer.filter (· != "") with
    | none => return []
    | some f =>
      let base := (← resolve (ofString f)).parent
      let rel := substitute "." "/" (String.ofList (m.toList.dropWhile (· == '.')))
      if rel == "" then return [(base / "__init__.py").toString]
      return [(base / (rel ++ ".py")).toString, (base / rel / "__init__.py").toString]
  else if finishesWith ".py" m then
    let p := ofString m
    return [(← resolve (if p.isAbsolute then p else ofString root / p)).toString]
  else
    let rel := substitute "." "/" m
    let base ← resolve (ofString root)
    return [(← resolve (base / (rel ++ ".py"))).toString, (← resolve (base / rel / "__init__.py")).toString]

/-- The endings of a script, and the files of a directory that stands for its index. -/
def scriptFiles (base : Path) : Strings :=
  [".ts", ".tsx", ".js"].map (fun ending => (ofString (base.toString ++ ending)).toString)
    ++ ["index.ts", "index.tsx", "index.js"].map (fun (name : String) => (base / name).toString)

/-- The files of a TypeScript module, which must be relative to the file that imports it. -/
def typescriptFiles (module : String) (importer : Option String) : Action Strings := do
  let m := strip module
  if !beginsWith "." m then return []
  match importer.filter (· != "") with
  | none => return []
  | some f =>
    let directory := (← resolve (ofString f)).parent
    return scriptFiles (← resolve (directory / m))

/-- The files of a Python module for a file that imports it: dots in front go up from that file's directory, one
level for each after the first. -/
def moduleFiles (root importer : Path) (module : String) : List Path :=
  let m := strip module
  if m == "" then []
  else
    let name := m.toList.dropWhile (· == '.')
    let rel := substitute "." "/" (String.ofList name)
    if beginsWith "." m then
      let base := (List.range (m.length - name.length - 1)).foldl (fun p _ => p.parent) importer.parent
      if rel == "" then [base / "__init__.py"] else [base / (rel ++ ".py"), base / rel / "__init__.py"]
    else [root / (rel ++ ".py"), root / rel / "__init__.py"]

/-! ## Imports of a file -/

/-- The modules that a statement imports. A name that is imported from a module may be a module itself. -/
def importedModules : Python.Statement → Strings
  | .imports names _ => names.map (·.name)
  | .importsFrom level module names _ =>
    let source := repeated "." level ++ module
    if source == "" then []
    else source :: (names.filter (·.name != "*")).map fun a => s!"{source}.{a.name}"
  | _ => []

variable (w : Workspace) (root p : Path)

def textAt? : Option String :=
  match w.files.find? w.cwd p with
  | .ok (some (.file (.bytes b) _)) => some (unified (Utf8.decodeDropping b))
  | _ => none

def knownFiles (ps : List Path) : Result (List Path) := do
  let found ← ps.mapM fun p => do
    match w.files.resolve w.cwd p with
    | .ok q =>
      let known := FileTree.isFile (← w.files.find? w.cwd q) && (Syntax.Language.ofPath? q).isSome
      return if known then some q else none
    | .error _ => return none
  return found.filterMap id

def pythonDependencies : Result (List Path) :=
  match textAt? w p with
  | none => .ok []
  | some text =>
    match Python.statements text with
    | .error _ => .ok []
    | .ok ss => knownFiles w ((ss.flatMap importedModules).flatMap (moduleFiles root p))

def secondGroups (pattern text : String) : Strings :=
  match Pattern.Regex.read pattern {} with
  | .ok r => (r.allMatches text).map fun m => (m.group? 2).getD ""
  | .error _ => []

def typescriptDependencies : Result (List Path) := do
  match textAt? w p with
  | none => return []
  | some text =>
    let modules := secondGroups "(?:from\\s+|import\\s+)(['\"])([^'\"]+)\\1" text
      ++ secondGroups "require\\(\\s*(['\"])([^'\"]+)\\1\\s*\\)" text
    let relative := (modules.map strip).filter (beginsWith ".")
    let files ← relative.mapM fun (m : String) => do
      return scriptFiles (← w.files.resolve w.cwd (p.parent / m))
    knownFiles w (files.flatten.map ofString)

/-- The known files that a file imports. -/
def dependencies : Result (List Path) :=
  match Syntax.Language.ofPath? p with
  | some "python" => pythonDependencies w root p
  | some "typescript" => typescriptDependencies w p
  | _ => .ok []

/-! ## Following imports -/

variable (o : Repository.ScanOptions)

/-- The path without links of a file that may be indexed. -/
def eligible? (p : Path) : Result (Option Path) :=
  match w.files.resolve w.cwd p with
  | .error _ => .ok none
  | .ok q => do
    if q.allParts.any o.excludes.contains then return none
    match ← w.files.find? w.cwd q with
    | some (.file (.bytes b) _) =>
      return if o.maxBytes < b.length || (Syntax.Language.ofPath? q).isNone then none else some q
    | _ => return none

structure Reach where
  depth : Nat := 5
  files : Nat := 2000

/-- The first new file of a queue that may be indexed, with its depth and the rest. -/
def nextNew? (seen : List Path) : List (Path × Nat) → Result (Option (Path × Nat × List (Path × Nat)))
  | [] => .ok none
  | (p, depth) :: queue => do
    match ← eligible? w o p with
    | some q => if seen.contains q then nextNew? seen queue else return some (q, depth, queue)
    | none => nextNew? seen queue

/-- Follows imports from a queue of files with their depths, for a number of further files; `seen` are the files so
far. -/
def follow (root : Path) (maxDepth : Nat) : Nat → List Path → List (Path × Nat) → Result (List Path)
  | 0, seen, _ => .ok seen
  | n + 1, seen, queue => do
    match ← nextNew? w o seen queue with
    | none => return seen
    | some (q, depth, rest) =>
      let found ← if maxDepth ≤ depth then pure [] else dependencies w root q
      follow root maxDepth n (seen ++ [q]) (rest ++ found.map (·, depth + 1))

/-- The files that can be reached over imports, sorted. -/
def closure (root : Path) (r : Reach) (seeds : List Path) : Result (List Path) := do
  let files ← follow w o root r.depth r.files [] (seeds.map (·, 0))
  return files.mergeSort fun a b => a.toString ≤ b.toString

end PatchReview.Import
