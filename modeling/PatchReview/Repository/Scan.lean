import PatchReview.Files
import PatchReview.Graph.Build
import PatchReview.Digest.Sha256

/-!
# Scanning a repository

Files of the known languages below a directory, by language, and their syntax trees.
-/

/-!
## Languages

The languages whose syntax is known, and the endings of their files.
-/

namespace PatchReview.Syntax.Language

def supported : Strings := ["typescript", "python", "go", "java", "ruby"]

/-- The name of a language in any case of letters. -/
def normal (name : String) : Result String :=
  let key := lowered name
  if supported.contains key then .ok key else .error (.invalid s!"Unsupported language: {name}")

def endings : Pairs := [
  (".py", "python"), (".go", "go"), (".java", "java"), (".rb", "ruby"), (".ts", "typescript"),
  (".tsx", "typescript"), (".js", "typescript"), (".jsx", "typescript")]

def ofPath? (p : Path) : Option String := endings.lookup (lowered p.suffix)

structure Capability where
  typed : Bool
  flow : Bool
  calls : Bool

def capabilities : List (String × Capability) := supported.map ((·, ⟨false, true, true⟩))

end PatchReview.Syntax.Language

namespace PatchReview.Repository

def scanExcludes : Strings := [
  ".git", ".hg", ".svn", "__pycache__", ".mypy_cache", ".pytest_cache", "node_modules", "dist", "build",
  "target", "vendor", ".venv", "venv"]

structure ScanOptions where
  /-- Languages to keep; all when there are none. -/
  languages : Strings := []
  excludes : Strings := scanExcludes
  maxBytes : Int := 2000000

/-- The files below a directory: those in it, then those of the directories in it, which are not entered by
links. -/
def filesUnder : Nat → Path → Action (List Path)
  | 0, _ => return []
  | fuel + 1, directory => do
    let entries ← Files.list directory
    let inner := entries.filterMap fun (name, e) =>
      match e with
      | .directory => some name
      | _ => none
    let outer := entries.filterMap fun (name, e) =>
      match e with
      | .directory => none
      | _ => some (directory / name)
    let below ← inner.mapM fun (name : String) => filesUnder fuel (directory / name)
    return outer ++ below.flatten

/-- Whether a file is kept by a scan, and under which language. -/
def scanned? (o : ScanOptions) (p : Path) : Action (Option String) := do
  if !(← Files.isFile p) then return none
  if p.allParts.any o.excludes.contains then return none
  if o.maxBytes < (← Files.size p) then return none
  match Syntax.Language.ofPath? p with
  | some lang => return if o.languages.isEmpty || o.languages.contains lang then some lang else none
  | none => return none

def addTo (groups : List (String × List Path)) (lang : String) (p : Path) : List (String × List Path) :=
  Fields.insert groups lang (((Fields.get? groups lang).getD []) ++ [p])

def scan (root : Path) (o : ScanOptions) : Action (List (String × List Path)) := do
  let root ← Files.resolve root
  if !(← Files.isDirectory root) then return []
  let files ← filesUnder ((← get).files.entries.length + 1) root
  let groups ← files.foldlM (fun groups p => do
    match ← scanned? o p with
    | some lang => return addTo groups lang p
    | none => return groups) []
  return groups.map fun (lang, ps) => (lang, ps.mergeSort fun a b => a.toString ≤ b.toString)

/-- The syntax tree of bytes: the one known for them, else a bare module. -/
def treeOf (b : Bytes) : Action Syntax.Tree := do
  match (← get).trees.find? (·.1 == b) with
  | some (_, t) => return t
  | none => return .node "module" 0 b.length []

def requireParser (lang : String) : Action Unit := do
  if (← get).unparsed.contains lang then
    throw (.failed s!"No parser available for language: {lang}")

def parseFiles (lang : String) (files : List Path) : Action (List ParsedFile) := do
  let lang ← Action.ofExcept (Syntax.Language.normal lang)
  requireParser lang
  files.mapM fun p => do
    let b ← Files.readBytes p
    return { path := p.toString, lang, source := b, blob := Sha256.hexDigest b, root := ← treeOf b }

def parseAll (root : Path) (o : ScanOptions) : Action (List ParsedFile) := do
  let groups ← scan root o
  let parsed ← groups.mapM fun (lang, files) => parseFiles lang files
  return parsed.flatten

/-- A digest of files with their paths, in the order of the paths. -/
def fingerprint (files : List Path) : Action String := do
  let sorted := files.mergeSort fun a b => a.toString ≤ b.toString
  let parts ← sorted.mapM fun p => do
    match ← Action.attempt (Files.readBytes p) with
    | .ok b => return utf8 p.toString ++ b
    | .error _ => return utf8 p.toString
  return Sha256.hexDigest parts.flatten

end PatchReview.Repository
