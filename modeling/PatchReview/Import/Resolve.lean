import PatchReview.Inquiry.Symbols

/-!
# Resolving imports

An import is resolved only when the indexed files prove that the name is there: a Python module binds it, a TypeScript
module exports it, a Go package, Java class or Ruby file defines it.
-/

namespace PatchReview.Import

open Fields Files Inquiry Path

open Inquiry (Outcome)

structure Request where
  module : String
  name : String
  rev : String
  root : Option String := none
  importer : Option String := none

variable (ix : Index) (q : Request) (path rev lang : String) (files : Strings)

def Request.root? : Option String := q.root.filter (· != "")

def present (rev path : String) : Bool := (ix.versionOf? rev path).isSome

def found (hits : List Json) : Outcome :=
  .found [("rev", q.rev), ("lang", lang), ("from_module", q.module), ("name", q.name), ("matches", .list hits)]

def notExported : Outcome :=
  .refused "import target not exported from module (strict)"
    [("rev", q.rev), ("lang", lang), ("from_module", q.module), ("name", q.name),
      ("candidates_checked", .texts (files.take 20))]

def isFileName (module : String) : Bool := (ofString module).isAbsolute || finishesWith ".py" module

/-- The files of a Python module at the revision; when there are none, those with a fitting end. -/
def pythonModuleFiles : Action Strings := do
  let root ← resolve (ofString (q.root?.getD "/"))
  let files := (← pythonFiles q.module root.toString q.importer).filter (present ix q.rev)
  if !files.isEmpty then return files
  if q.root?.isNone || isFileName q.module then return []
  let rel := substitute "." "/" q.module
  return Index.once (ix.pathsEndingWith q.rev s!"/{rel}.py" 20
    ++ ix.pathsEndingWith q.rev s!"/{rel}/__init__.py" 20)

def pythonHit (place : Graph.Span) : Json :=
  importHit path "python" s!"from {q.module} import {q.name}" place (some path)

/-- Where a Python module of a package has the name: the package binds it, or a module beside it is called so. -/
def pythonMatch? (x : Python.Exports) : Action (Option Json) := do
  match get? x.names q.name with
  | some place => return some (pythonHit q path place)
  | none =>
    if x.hasList && x.listed.contains q.name && x.makesNames then
      return some (pythonHit q path (fileStart path))
    else if finishesWith "/__init__.py" path || finishesWith "\\__init__.py" path then
      let directory := (← resolve (ofString path)).parent
      let inner := [(directory / (q.name ++ ".py")).toString, (directory / q.name / "__init__.py").toString]
      return (inner.find? (present ix q.rev)).map fun p => pythonHit q p (fileStart p)
    else return none

def noBytes (what path blob : String) : Outcome :=
  .refused (s!"blob content not available for strict {what} resolution; " ++
      "index_repository(..., store_blobs=True) required")
    [("file_path", path), ("blob_hash", blob)]

/-- Looks for the name in Python modules; the bytes of each must be there. -/
def pythonMatches : Strings → List Json → Action (Except Outcome (List Json))
  | [], hits => return .ok hits
  | path :: rest, hits => do
    match ix.versionOf? q.rev path with
    | none => pythonMatches rest hits
    | some (_, blob, _) =>
      match ← Action.ofExcept (ix.blobContent blob) with
      | none => return .error (noBytes "python import" path blob)
      | some source =>
        match Python.exportsOf path (Utf8.decodeDropping source) with
        | .error e => throw (.unparsable e)
        | .ok x =>
          match ← pythonMatch? ix q path x with
          | some hit => pythonMatches rest (hits ++ [hit])
          | none => pythonMatches rest hits

def python : Action Outcome := do
  if q.root?.isNone && !isFileName q.module then
    return .refused ("python resolve_import requires repo_root_hint for strict resolution " ++
        "when from_module is not an absolute file path")
      [("from_module", q.module), ("name", q.name)]
  let files ← pythonModuleFiles ix q
  if files.isEmpty then
    return .refused "module file not found at rev"
      [("rev", q.rev), ("from_module", q.module), ("candidates", .list [])]
  match ← pythonMatches ix q files [] with
  | .error o => return o
  | .ok [] => return notExported q "python" files
  | .ok hits => return found q "python" hits

def firstMatch? (pattern text : String) : Option Pattern.Match :=
  match Pattern.Regex.read pattern {} with
  | .ok r => r.search? text
  | .error _ => none

structure ExportName where
  inner : String
  outer : String
  deriving DecidableEq

inductive Export where
  | declaration (name : String)
  | namedFrom (names : List ExportName) (module : String)
  | allFrom (module : String)
  | names (names : List ExportName)
  deriving DecidableEq

def exportedNames (list : String) : List ExportName :=
  (cutAt "," list).filterMap fun part =>
    let part := strip part
    if part == "" then none
    else match cutOnce? " as " part with
      | some (name, renamed) => some ⟨strip name, strip renamed⟩
      | none => some ⟨part, part⟩

def Export.ofText? (s : String) : Option Export :=
  match firstMatch?
    "export\\s+(?:async\\s+)?(function|class|const|let|var)\\s+([A-Za-z_$][A-Za-z0-9_$]*)" s with
  | some m => some (.declaration ((m.group? 2).getD ""))
  | none =>
    match firstMatch? "export\\s*\\\x7b([^\x7d]+)\\\x7d\\s*from\\s*['\"]([^'\"]+)['\"]" s with
    | some m => some (.namedFrom (exportedNames ((m.group? 1).getD "")) ((m.group? 2).getD ""))
    | none =>
      match firstMatch? "export\\s*\\*\\s*from\\s*['\"]([^'\"]+)['\"]" s with
      | some m => some (.allFrom ((m.group? 1).getD ""))
      | none =>
        (firstMatch? "export\\s*\\\x7b([^\x7d]+)\\\x7d\\s*;?" s).map fun m =>
          .names (exportedNames ((m.group? 1).getD ""))

/-- The pieces of a TypeScript file that export, with their places; without syntax for them, the lines that hold the
word. -/
def exportPieces (source : Bytes) : Action (List (String × Option Graph.Span)) := do
  let nodes ← match ← Action.attempt (Repository.requireParser "typescript") with
    | .error _ => pure []
    | .ok _ => do
      let root ← Repository.treeOf source
      pure (root.preorder.filter (·.kind == "export_statement"))
  if nodes.isEmpty then
    return ((linesOf (Utf8.decodeDropping source)).filter (holds "export")).map (·, none)
  return nodes.map fun t => (t.text source, some (Graph.spanOf path source t))

structure Collected where
  names : List (String × Option Graph.Span) := []
  visited : Strings := []

/-- Adds a name; a place that is known replaces an old one. -/
def Collected.add (c : Collected) (place : Option Graph.Span) (name : String) : Collected :=
  match place with
  | some _ => { c with names := insert c.names name place }
  | none => if has c.names name then c else { c with names := c.names ++ [(name, none)] }

/-- Adds a name; a place that is there stays. -/
def Collected.addKeeping (c : Collected) (place : Option Graph.Span) (name : String) : Collected :=
  match get? c.names name with
  | some (some _) => c
  | _ => c.add place name

def bytesAt (rev path : String) : Result (Option (String × Option Bytes)) := do
  match ix.versionOf? rev path with
  | none => return none
  | some (_, blob, _) => return some (blob, ← ix.blobContent blob)

def typescriptModuleFiles : Action Strings := do
  return (← typescriptFiles q.module q.importer).filter (present ix q.rev)

/-- The directory two levels above a file, which must be there. -/
def requireGrandparent : Action Unit := do
  if (ofString path).isAbsolute then
    if (← resolve (ofString path)).parent.parts.isEmpty then throw (.outOfRange "0")

def typescriptHit (place : Option Graph.Span) : Json :=
  importHit path "typescript" s!"import \x7b{q.name}\x7d from '{q.module}'"
    (place.getD (fileStart path)) (some path)

abbrev Collector := String → Bytes → Strings → Action Collected

variable (inner : Collector)

def typescriptAmong (all : Strings) : Strings → Action Outcome
  | [] => return notExported q "typescript" all
  | path :: rest => do
    match ← Action.ofExcept (bytesAt ix q.rev path) with
    | none => typescriptAmong all rest
    | some (blob, none) => return noBytes "typescript export" path blob
    | some (_, some source) =>
      let c ← inner path source []
      match get? c.names q.name with
      | some place => return found q "typescript" [typescriptHit q path place]
      | none => typescriptAmong all rest

def typescriptWith (inner : Collector) (q : Request) : Action Outcome := do
  let _ ← resolve (ofString (q.root?.getD "/"))
  let files ← typescriptModuleFiles ix q
  if files.isEmpty then
    return .refused ("typescript module file not found at rev (strict). For relative imports, " ++
        "importer_file_path is required.")
      [("rev", q.rev), ("from_module", q.module), ("importer_file_path", .ofText? q.importer)]
  typescriptAmong ix q inner files files

def collectNamed (path module : String) (place : Option Graph.Span) (c : Collected) (name : String) :
    Action Collected := do
  requireGrandparent path
  match ← typescriptWith ix inner { module, name, rev, importer := some path } with
  | .found _ => return c.add place name
  | .refused .. => return c

def collectAll (path module : String) (place : Option Graph.Span) (c : Collected) : Action Collected := do
  match ← typescriptModuleFiles ix { module, name := "", rev, importer := some path } with
  | [] => return c
  | target :: _ =>
    match ← Action.ofExcept (bytesAt ix rev target) with
    | some (_, some (b :: source)) =>
      let found ← inner target (b :: source) c.visited
      return found.names.foldl (fun c (name, _) => c.addKeeping place name)
        { c with visited := found.visited }
    | _ => return c

def collectPiece (path : String) (c : Collected) (piece : String × Option Graph.Span) : Action Collected :=
  match Export.ofText? piece.1 with
  | none => return c
  | some (.declaration name) => return c.add piece.2 name
  | some (.names names) => return names.foldl (fun c n => c.add piece.2 n.outer) c
  | some (.namedFrom names module) =>
    names.foldlM (fun c n => collectNamed ix rev inner path module piece.2 c n.outer) c
  | some (.allFrom module) => collectAll ix rev inner path module piece.2 c

/-- Collects what a file exports. Other modules are followed at most `depth` deep, and no file is looked at
twice. -/
def collect : Nat → Collector
  | 0, path, _, visited => return { visited := if visited.contains path then visited else visited ++ [path] }
  | depth + 1, path, source, visited => do
    if visited.contains path then return { visited }
    let pieces ← exportPieces path source
    pieces.foldlM (collectPiece ix rev (collect depth) path) { visited := visited ++ [path] }

def typescript (depth : Bound) : Action Outcome :=
  let inner : Collector := fun path source visited => do
    collect ix q.rev (← Action.ofExcept depth).toNat path source visited
  typescriptWith ix inner q

def definedIn : List Json :=
  match ix.versionOf? q.rev path with
  | none => []
  | some (id, blob, _) =>
    ((ix.symbols.filter fun s => s.fileId == id && s.blob == blob && s.name == q.name).take 10).map
      (plainSymbolHit path)

def definedAmong (refusal : Outcome) : Outcome :=
  let hits := files.flatMap (definedIn ix q)
  if hits.isEmpty then refusal else found q lang hits

/-- Resolves a Go import: a file of the package's directory defines the name. -/
def go : Action Outcome := do
  let module := ofString q.module
  if q.root?.isNone && !module.isAbsolute then
    return .refused "go resolve_import requires repo_root_hint unless from_module is absolute path"
      [("from_module", q.module)]
  let root ← match q.root? with
    | some r => resolve (ofString r)
    | none => pure (ofString "")
  let directory := (← resolve (root / module)).toString
  let inside := (ix.filesAt q.rev).filter fun f => Index.like s!"{directory}/%" f.path
  let files := ((inside.take 500).map (·.path)).filter (finishesWith ".go")
  if files.isEmpty then
    return .refused "go package directory not found at rev"
      [("rev", q.rev), ("pkg_dir", directory)]
  return definedAmong ix q "go" files (.refused
    "go import target not found in package (strict repo-local)"
    [("rev", q.rev), ("pkg_dir", directory), ("name", q.name)])

/-- Resolves a Java import: a file of the class's name in the package's directory defines it. -/
def java : Action Outcome := do
  match q.root? with
  | none =>
    return .refused "java resolve_import requires repo_root_hint for strict repo-local resolution"
      [("from_module", q.module)]
  | some root =>
    let _ ← resolve (ofString root)
    let package := substitute "." "/" q.module
    let ending := s!"/{package}/{q.name}.java"
    return definedAmong ix q "java" (ix.pathsEndingWith q.rev ending 50) (.refused
      "java import target not found in repo (strict repo-local)"
      [("rev", q.rev), ("from_module", q.module), ("name", q.name), ("suffix", ending)])

def rubyFile : Action String := do
  let module := ofString q.module
  if module.isAbsolute then return (← resolve module).toString
  let root ← match q.root? with
    | some r => resolve (ofString r)
    | none => pure (ofString "")
  let base ← match q.importer.filter (· != "") with
    | some f => do pure (← resolve (ofString f)).parent
    | none => pure root
  let relative := beginsWith "./" q.module || beginsWith "../" q.module
  let p := (← resolve ((if relative then base else root) / q.module)).toString
  return if finishesWith ".rb" p then p else (ofString (p ++ ".rb")).toString

/-- Resolves a Ruby import: the loaded file defines the name. -/
def ruby : Action Outcome := do
  if q.root?.isNone && !(ofString q.module).isAbsolute then
    return .refused "ruby resolve_import requires repo_root_hint unless from_module is absolute path"
      [("from_module", q.module)]
  let file ← rubyFile q
  if !present ix q.rev file then
    return .refused "ruby required file not found at rev"
      [("rev", q.rev), ("from_module", q.module), ("candidates", .list [])]
  return definedAmong ix q "ruby" [file] (.refused
    "ruby constant not found in required file (strict repo-local)"
    [("rev", q.rev), ("file", file), ("name", q.name)])

def languages : Strings := ["python", "typescript", "go", "java", "ruby"]

def unsupported (lang : Json) : Outcome := .refused "unsupported lang for resolve_import" [("lang", lang)]

def resolve (lang module name : String) (rev root importer : Option String) (maxDepth : Bound) : Action Outcome :=
  guarded "resolve_import failed" do
    let r ← Action.ofExcept (ix.requireRevision rev)
    let q : Request := { module, name, rev := r, root, importer }
    if lang == "python" then python ix q
    else if lang == "typescript" then typescript ix q maxDepth
    else if lang == "go" then go ix q
    else if lang == "java" then java ix q
    else if lang == "ruby" then ruby ix q
    else return unsupported lang

end PatchReview.Import
