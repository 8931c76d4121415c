import PatchReview.Repository.Git
import PatchReview.Storage

/-!
# Repository maps

A map of a repository lists its source files and draws its directories as a tree. It is kept in the storage under a
key, so that it is drawn once for each commit.
-/

namespace PatchReview.Repository

open Action Files Json Storage

structure MapOptions where
  extensions : Strings := [".py", ".js", ".ts", ".go", ".java", ".cpp", ".c", ".h"]
  maxDepth : Int := 10
  /-- A path that has one of these in it is left out. -/
  excludes : Strings := [".git", "__pycache__", "node_modules", ".venv"]

structure RepoMap where
  tree : Strings
  files : Strings
  source : String

def RepoMap.toJson (m : RepoMap) : Json :=
  .object [("file_tree", joinWith "\n" m.tree), ("file_count", m.files.length),
    ("files", texts m.files), ("source_path", m.source)]

/-- The entries of a directory in the order they are drawn: directories first, each by name. -/
def drawnEntries (directory : Path) : Action Strings := do
  let entries ← list directory
  let kinds ← entries.mapM fun (name, _) => do
    return (name, ← isFile (directory / name))
  let sorted := kinds.mergeSort fun a b => if a.2 != b.2 then !a.2 else decide (a.1 ≤ b.1)
  return sorted.map (·.1)

variable (o : MapOptions) (source : Path)

/-- Draws what is below a path: lines of the tree and the files among them. -/
def draw : Nat → Path → String → Action (Strings × Strings)
  | 0, _, _ => return ([], [])
  | fuel + 1, relative, indent => do
    let here := source / relative
    if o.excludes.any (holds · here.toString) then return ([], [])
    if ← isFile here then
      if o.extensions.contains here.suffix then
        return ([s!"{indent}📄 {here.name}"], [relative.toString])
      else return ([], [])
    else if ← isDirectory here then
      let head := if relative.parts.isEmpty then [] else [s!"{indent}📁 {here.name}/"]
      let names ← drawnEntries here
      let last := names.length - 1
      let parts ← names.zipIdx.mapM fun (name, n) =>
        draw fuel (relative / name) (indent ++ (if n == last then "    " else "│   "))
      return (head ++ parts.flatMap (·.1), parts.flatMap (·.2))
    else return ([], [])

def mapOf : Action RepoMap := do
  let source ← resolve source
  if !(← present source) then
    throw (.invalid s!"Source path does not exist: {source.toString}")
  if !(← isDirectory source) then
    throw (.invalid s!"Source path must be a directory: {source.toString}")
  let (tree, files) ← draw o source (o.maxDepth + 1).toNat ⟨"", []⟩ ""
  return ⟨s!"📁 {source.name}/" :: tree, files, source.toString⟩

def mapCollection := "assets"

def defaultMapKey := "repo_map"

def buildMap (key : String) : Action RepoMap := do
  let m ← mapOf o source
  let _ ← connect
  save mapCollection key (Storage.Draft.ofJson m.toJson)
  return m

/-- The files of a map whose names have a text in them, in any case of letters. -/
def queryMap (query : String) (map : Json) : Result Json := do
  let files ← elements (← memberOr map "files" (.list []))
  let q := lowered query
  let found := files.filter fun f =>
    let name := f.display
    holds q (lowered name) || holds q (lowered (Path.ofString name).suffix)
  return .object [("query", query), ("matches", .list found), ("match_count", found.length)]

/-- A summary of a map. All lines but the first are indented alike. -/
def mapSummary (indent : String) (map : Json) : Result Json := do
  let tree ← memberOr map "file_tree" "No file tree available"
  let count ← memberOr map "file_count" (.int 0)
  let all ← memberOr map "files" (.list [])
  let source ← memberOr map "source_path" "unknown"
  let files ← match all with
    | .list _ | .text _ => elements all
    | v => throw (.shape s!"'{v.kindName}' object is not subscriptable")
  let shown := files.take 50
  let preview : Json := match all with
    | .text s => takeChars 50 s
    | _ => .list shown
  let more := files.length - 50
  let listing := joinWith "\n" (shown.map fun f => s!"  - {f.display}")
    ++ (if 50 < files.length then s!"\n  ... and {more} more files" else "")
  let lines := [s!"{indent}Source Path: {source.display}", s!"{indent}Total Files: {count.display}", "",
    s!"{indent}File Tree:", s!"{indent}{tree.display}", "",
    s!"{indent}Key Files (first 50):", s!"{indent}{listing}", indent]
  return .object [("summary", joinWith "\n" ("Repository Structure Summary:" :: lines)), ("file_count", count),
    ("files", preview), ("all_files", all), ("source_path", source), ("error", .null)]

def noSummary (summary error : String) : Json :=
  .object [("summary", summary), ("file_count", .int 0), ("files", .list []), ("error", error)]

def fetchMap (indent : String) (key : Option String) : Action Json := do
  let fetch : Action Json := do
    let _ ← connect
    let key := match key with
      | some k => if k == "" then defaultMapKey else k
      | none => defaultMapKey
    match ← load mapCollection key with
    | none | some .null =>
      return noSummary "Repository map not found. Please build the repository map first."
        "Repository map not found in storage"
    | some map => mapSummary indent map
  match ← attempt fetch with
  | .ok v => return v
  | .error e => return noSummary "" s!"Error fetching repository map: {e.message}"

def toolIndent : String := repeated " " 20

/-- Makes sure that the map of a commit is kept, and gives its key. -/
def ensureMap (root : Path) (branch commit : Option String) : Action String := do
  let detected ← if branch.isNone || commit.isNone then branchAndCommit root "HEAD"
    else pure (none, none)
  let filled (o other : Option String) : Option String :=
    match o with
    | some s => if s == "" then other else o
    | none => other
  let (branch, commit) := if branch.isNone || commit.isNone then
      (filled branch detected.1, filled commit detected.2)
    else (branch, commit)
  let make : Action String := do
    let key ← assetKey root branch commit
    let _ ← connect
    if ← contains mapCollection key then
      say s!"✅ Repository map already exists in storage (key: {key})"
      return key
    say s!"🔨 Building repository map (key: {key})..."
    let m ← buildMap {} root key
    say s!"✅ Repository map built and saved ({m.files.length} files)"
    return key
  match ← attempt make with
  | .ok key => return key
  | .error e =>
    say s!"⚠️  Warning: Could not build repo map: {e.message}"
    assetKey root branch commit

structure AssetRegistry where
  makers : Pairs := []

/-- An asset maker: the name of its kind, the type of asset and the extensions it looks at. -/
structure AssetMaker where
  kind : String
  assetType : String
  extensions : Strings

namespace AssetRegistry

def register (r : AssetRegistry) (assetType kind : String) : Result AssetRegistry :=
  if Fields.has r.makers assetType then
    .error (.invalid s!"Asset type '{assetType}' is already registered")
  else .ok ⟨Fields.insert r.makers assetType kind⟩

def get? (r : AssetRegistry) (assetType : String) : Option String := Fields.get? r.makers assetType

/-- Makes a maker for a type, with options by name. -/
def create (r : AssetRegistry) (assetType : String) (options : Json.Object) : Result AssetMaker :=
  match r.get? assetType with
  | none => .error (.invalid s!"Asset type '{assetType}' is not registered")
  | some kind =>
    if options.any fun (k, _) => k != "supported_extensions" then
      .error (.shape "got an unexpected keyword argument")
    else
      let standard : MapOptions := {}
      .ok ⟨kind, assetType, match Fields.get? options "supported_extensions" with
        | some (.list vs) => vs.filterMap text?
        | _ => standard.extensions⟩

end AssetRegistry

end PatchReview.Repository
