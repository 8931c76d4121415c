import PatchReview.Files
import PatchReview.Yaml.Construct

/-!
# Settings in files

Settings are read from a file of either format, by its ending; a run looks for one in its directory and lets the
environment override what it says.
-/

namespace PatchReview.Settings

open Action Files

def notMapping {α : Type} (kind : String) : Result α :=
  .error (.shape s!"core.config.Config() argument after ** must be a mapping, not {kind}")

variable (home : Path)

/-- Settings from a dynamic value, which must be an object. -/
def ofJson : Json → Result Settings
  | .object fs => ofFields home fs
  | v => notMapping v.kindName

/-- Settings from a document, which must be a mapping of texts. -/
def ofDocument : Yaml.Value → Result Settings
  | .map ps =>
    match ps.mapM fun (k, v) => (Record.Source.text? k).map fun name => (name, v) with
    | some fs => Record.toExcept recordName (readFields home fs)
    | none => .error (.shape "keywords must be strings")
  | v => notMapping v.kindName

def readFile (home p : Path) : Action Settings := do
  let ending := lowered p.suffix
  let text ← readText p
  if [".yaml", ".yml"].contains ending then
    match Yaml.read text with
    | .ok v => Action.ofExcept (ofDocument home v)
    | .error e => throw (.invalid (e.message p.toString))
  else if ending == ".json" then
    match Json.read text with
    | .ok v => Action.ofExcept (ofJson home v)
    | .error e => throw (.malformed e)
  else throw (.invalid s!"Unsupported config file format: {ending}")

def load (home p : Path) : Action Settings := do
  let p ← resolve p
  if !(← present p) then
    throw (.notFound s!"Configuration file not found: {p.toString}")
  match ← attempt (readFile home p) with
  | .ok s => return s
  | .error (.malformed e) =>
    let problem := if e.isForm then "Invalid JSON in config file" else "Error loading config file"
    throw (.invalid s!"{problem}: {e.message}")
  | .error e => throw (.invalid s!"Error loading config file: {e.message}")

/-- Files in which settings are looked for, in this order. -/
def standardFiles : Strings := ["config.yaml", "config.yml", "config.json"]

/-- The settings of the first file that can be read. Without one, the standard ones, and more variables are loaded. -/
def loadFirst : Strings → Action Settings
  | [] => do
    loadVariables
    return standard home
  | name :: names => do
    let p := Path.ofString name
    if ← present p then
      match ← attempt (load home p) with
      | .ok s => return s
      | .error e =>
        say s!"Warning: Could not load {name}: {e.message}"
        loadFirst names
    else loadFirst names

/-- The settings of a run: from a file in its directory, with the environment's overrides. -/
def loadStandard : Action Settings := do
  let s ← loadFirst home standardFiles
  return s.withEnvironment (← get).environment

/-- Saves settings. Neither format can hold the paths among them. -/
def save (p : Path) : Action Unit := do
  let p ← resolve p
  makeDirectories p.parent
  writeText p ""
  let ending := lowered p.suffix
  if [".yaml", ".yml"].contains ending then throw .unrepresentable
  else if ending == ".json" then throw (.shape "Object of type PosixPath is not JSON serializable")
  else throw (.invalid s!"Unsupported config file format: {ending}")

end PatchReview.Settings
