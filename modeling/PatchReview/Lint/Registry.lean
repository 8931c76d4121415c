import PatchReview.Yaml.Construct
import PatchReview.Repository.Git

/-!
# Findings of checkers

A finding is a message about a line of a file, with a severity and the code of the rule that was broken.
-/

namespace PatchReview.Lint

open Json Record String Text

structure Finding where
  path : String
  line : Int
  message : String
  severity : String := "error"
  code : String := ""
  deriving DecidableEq

namespace Finding

/-- A finding whose line, message and code a checker reported. Numbers may stand for texts and texts for numbers;
anything else is refused. -/
def ofReport (path severity : String) (line message code : Json) : Result Finding :=
  toExcept "LintError" <| run do
    let line ← take "line" 0 (whole line)
    let message ← take "message" "" (text message)
    let code ← take "code" "" (text code)
    return ⟨path, line, message, severity, code⟩

def toJson (f : Finding) : Json :=
  .object [("file", f.path), ("line", f.line), ("message", f.message), ("severity", f.severity), ("code", f.code)]

end Finding

/-!
## Reports of checkers

Each checker writes a report of its own kind. Three of them write documents; the fourth writes one finding a line,
after the place it concerns.
-/

variable (root : Path) (report : String) (checked : Strings) (path : String) (s : Chars) (fs : Json.Object)

/-- The path of a reported file relative to a repository; none when it lies elsewhere. -/
def reportedPath? (name : String) : Option Path :=
  let p := Path.ofString name
  if p.isAbsolute then p.below? root else some p

def pathText : Json → Result String
  | .text s => .ok s
  | v => .error (.shape s!"expected str, bytes or os.PathLike object, not {v.kindName}")

/-- The first of two values that is not empty; the second one if both are. -/
def either (a b : Json) : Json := if a.truthy then a else b

/-- The text of a value, nothing for an empty one. -/
def shown (v : Json) : Json := if v.truthy then v.display else ""

/-- The entries of a report: the items of a list, a single document, or the lines that are documents. -/
def entries : Result (List Json) :=
  match read report with
  | .ok (.list vs) => .ok vs
  | .ok v => .ok [v]
  | .error e => do
    if !e.isForm then throw (.malformed e)
    let found ← (cutAt "\n" report).mapM fun line => do
      if (strip line).isEmpty then return none
      match read line with
      | .ok v => return some v
      | .error e => if e.isForm then return none else throw (.malformed e)
    return found.filterMap id

def fieldOr (key : String) (default : Json) : Json := (Fields.get? fs key).getD default

def severityOfCode (code : String) : String :=
  if beginsWith "W" code || beginsWith "I" code then "warning"
  else if beginsWith "N" code || beginsWith "UP" code then "info"
  else "error"

/-- The finding in an entry of a list of violations; none when it names no file of the repository. -/
def violation : Result (Option Finding) := do
  let code := match fieldOr fs "code" (.object []) with
    | .object c => either (fieldOr c "code" "") (fieldOr c "name" "")
    | v => shown v
  let name := fieldOr fs "filename" ""
  if !name.truthy then return none
  match reportedPath? root (← pathText name) with
  | none => return none
  | some p =>
    let line := match fieldOr fs "location" (.object []) with
      | .object l => fieldOr l "row" (.int 1)
      | _ => .int 1
    match code with
    | .text c => return some (← Finding.ofReport p.toString (severityOfCode c) line (fieldOr fs "message" "") code)
    | v => throw (v.lacks "startswith")

def violations : Result (List Finding) := do
  let found ← (← entries report).mapM fun
    | .object fs => violation root fs
    | _ => pure none
  return found.filterMap id

/-- The line of a diagnostic; lines are counted from 0 there. -/
def diagnosticLine : Json :=
  match fieldOr fs "span" (.object []) with
  | .object span =>
    match fieldOr span "start" (.object []) with
    | .object start =>
      match fieldOr start "line" (.int 1) with
      | .int n => .int (n + 1)
      | .bool b => .int (if b then 2 else 1)
      | v => v
    | _ => .int 1
  | _ => .int 1

def diagnosticMessage : Json :=
  match fieldOr fs "message" (.object []) with
  | .object m => either (fieldOr m "text" "") (fieldOr m "message" "")
  | v => shown v

/-- The finding in a diagnostic of a file; only errors with a message count. -/
def diagnostic : Result (Option Finding) :=
  match fieldOr fs "severity" "" with
  | .text severity =>
    let message := diagnosticMessage fs
    if lowered severity != "error" || !message.truthy then .ok none
    else do
      let code := either (fieldOr fs "rule" "") (fieldOr fs "code" "")
      return some (← Finding.ofReport path "error" (diagnosticLine fs) message code)
  | v => .error (v.lacks "lower")

def fileDiagnostics : Result (List Finding) := do
  let name := match fieldOr fs "source" (.object []) with
    | .object s => fieldOr s "name" ""
    | _ => ""
  if !name.truthy then return []
  match reportedPath? root (← pathText name) with
  | none => return []
  | some p =>
    let found ← (← (fieldOr fs "diagnostics" (.list [])).elements).mapM fun
      | .object d => diagnostic p.toString d
      | _ => pure none
    return found.filterMap id

def diagnostics : Result (List Finding) := do
  let found ← (← entries report).mapM fun
    | .object fs => fileDiagnostics root fs
    | _ => pure []
  return found.flatten

def severityOfPriority (v : Json) : Result String :=
  match v.number? with
  | some x => .ok (if x ≤ 2.0 then "error" else if x == 3.0 then "warning" else "info")
  | none => .error (.shape s!"'<=' not supported between instances of '{v.kindName}' and 'int'")

def brokenRule : Result (Option Finding) := do
  let line := match fieldOr fs "beginLine" (fieldOr fs "line" (.int 1)) with
    | .int n => n
    | .bool b => b
    | _ => .int 1
  let message := fieldOr fs "message" ""
  if !message.truthy then return none
  let code := either (fieldOr fs "rule" "") (fieldOr fs "ruleName" "")
  let severity ← severityOfPriority (fieldOr fs "priority" (.int 3))
  return some (← Finding.ofReport path severity line message code)

/-- The findings in the broken rules of one file, which must be one of those that were checked. -/
def fileRules : Result (List Finding) := do
  let name := fieldOr fs "filename" ""
  if !name.truthy then return []
  match reportedPath? root (← pathText name) with
  | none => return []
  | some p =>
    if !checked.contains p.toString then return []
    match fieldOr fs "violations" (.list []) with
    | .list vs =>
      let found ← vs.mapM fun
        | .object v => brokenRule p.toString v
        | _ => pure none
      return found.filterMap id
    | _ => return []

/-- The findings of a report of broken rules by file; text that is no document has none. -/
def brokenRules (report : String) : Result (List Finding) :=
  match read report with
  | .ok (.object fs) =>
    match fieldOr fs "files" (.list []) with
    | .list files => do
      let found ← files.mapM fun
        | .object f => fileRules root checked f
        | _ => pure []
      return found.flatten
    | _ => .ok []
  | .ok _ => .ok []
  | .error e => if e.isForm then .ok [] else .error (.malformed e)

def numberColon? : Option (Chars × Chars) :=
  match s.takeWhile isDecimal, s.dropWhile isDecimal with
  | [], _ => none
  | ds, ':' :: rest => some (ds, rest)
  | _, _ => none

/-- What follows the blanks at the start of a text, of which there must be one. -/
def afterBlanks? : Option Chars :=
  match s with
  | c :: _ =>
    if isBlank c then
      match s.dropWhile isBlank with
      | [] => none
      | rest => some rest
    else none
  | [] => none

/-- The line and the message that follow a path, with a column between them or not. -/
def lineAndMessage? (column : Bool) (s : Chars) : Option (Chars × Chars) := do
  let (line, rest) ← numberColon? s
  if column then
    let (_, rest) ← numberColon? rest
    return (line, ← afterBlanks? rest)
  else return (line, ← afterBlanks? rest)

/-- The shortest path at the start of a line after which a place and a message follow. `before` is what was read of the
path, last character first. -/
def placed? (column : Bool) (before : Chars) : Chars → Option (Chars × Chars × Chars)
  | [] => none
  | c :: s =>
    let later := placed? column (c :: before) s
    if c == ':' && !before.isEmpty then
      match lineAndMessage? column s with
      | some (line, message) => some (before.reverse, line, message)
      | none => later
    else later

/-- A code for a message, by what it speaks of. -/
def codeOfMessage (message : String) : String :=
  let low := lowered message
  if holds "Printf" message then "printf"
  else if holds "unused" low then "unused"
  else if holds "nil" low then "nil"
  else ""

/-- The finding on a line of a listing: a path, a line, maybe a column, and a message. -/
def listedFinding? (line : String) : Option Finding := do
  let s := (strip line).toList
  let (path, number, message) ← placed? true [] s <|> placed? false [] s
  let name := ofList path
  let p ← if (Path.ofString name).isAbsolute then reportedPath? root name
    else some (Path.ofString (withoutLead "./" name))
  let message := ofList message
  return ⟨p.toString, (Number.readInt? (ofList number)).getD 1, message, "error", codeOfMessage message⟩

def listedFindings (listing : String) : List Finding := (cutAt "\n" listing).filterMap (listedFinding? root)

/-!
## Checkers

A checker is a program that is run over the files of a language. What it finds is taken from its report; a checker
that is not installed, or whose report cannot be read, finds nothing.
-/

open Action Command

inductive Checker where
  | ruff
  | biome
  | vet
  | pmd
  deriving DecidableEq

namespace Checker

def all : List Checker := [ruff, biome, vet, pmd]

def name : Checker → String
  | ruff => "PythonRuffChecker"
  | biome => "TypeScriptBiomeChecker"
  | vet => "GoVetChecker"
  | pmd => "JavaPMDChecker"

def extensions : Checker → Strings
  | ruff => [".py", ".pyi"]
  | biome => [".ts", ".tsx", ".js", ".jsx", ".mjs", ".cjs"]
  | vet => [".go"]
  | pmd => [".java"]

def key : Checker → String × String
  | ruff => ("python", "ruff")
  | biome => ("typescript", "biome")
  | vet => ("go", "vet")
  | pmd => ("java", "pmd")

def ofShort? (short : String) : Option Checker := all.find? (·.key.2 == short)

/-- The language and the short name of the checker of a name, empty when there is none. -/
def keyOfName (name : String) : String × String := ((all.find? (·.name == name)).map key).getD ("", "")

def program : Checker → String
  | ruff => "ruff"
  | biome => "biome"
  | vet => "go"
  | pmd => "pmd"

def notice : Checker → Strings
  | ruff => ["  ⚠️  Warning: Ruff is not installed. Python syntax checking will be skipped.",
      "     Install Ruff with: pip install ruff"]
  | biome => ["  ⚠️  Warning: Biome is not installed. TypeScript/JavaScript syntax checking will be skipped.",
      "     Install Biome with: npm install -g @biomejs/biome"]
  | vet => ["  ⚠️  Warning: Go is not installed. Go syntax checking will be skipped.",
      "     Install Go from: https://go.dev/"]
  | pmd => ["  ⚠️  Warning: PMD is not installed. Java syntax checking will be skipped.",
      "     Install PMD from: https://pmd.github.io/", "     Or use: brew install pmd"]

def noticeOnce : Checker → Bool
  | ruff => false
  | _ => true

variable (root : Path) (c : Checker)

def reads (file : String) : Bool := c.extensions.any fun e => finishesWith e file

def existing (files : Strings) : Action (List Path) := (files.map fun (f : String) => root / f).filterM Files.isFile

/-- A step whose faults count as no finding. -/
def quietly (a : Action (List Finding)) : Action (List Finding) := do
  match ← attempt a with
  | .ok found => return found
  | .error _ => return []

/-- A step whose faults are told and count as no finding. -/
def loudly (what : String) (a : Action (List Finding)) : Action (List Finding) := do
  match ← attempt a with
  | .ok found => return found
  | .error e =>
    say s!"  ⚠️  Warning: {what} check failed: {e.message}"
    return []

/-- Runs a checker that ends with 0 or 1 and writes a document. -/
def runListing (words : Strings) (read : String → Result (List Finding)) : Action (List Finding) := do
  let r ← run words (some root)
  let out := strip r.out
  if (r.code != 0 && r.code != 1) || out.isEmpty then return []
  read out

/-- The packages of some files, in order: the directories that hold them. -/
def packages (files : List Path) : List Path :=
  (files.map fun f => (f.parent.below? root).getD (Path.ofString ".")).foldl
    (fun ps p => if ps.contains p then ps else ps ++ [p]) []

/-- How a package is named on the command line; the root stands for all packages below it. -/
def packageWord (p : Path) : String := if p == Path.ofString "." then "./..." else "./" ++ p.toString

/-- The listing in a reply: what was written to the second channel, else to the first; a run that ended well has none. -/
def listingOf (r : CommandReply) : String :=
  if r.code == 0 then ""
  else
    let err := strip r.err
    if err.isEmpty then strip r.out else err

def runPackages : List Path → Action (List Finding)
  | [] => return []
  | p :: ps => do
    let r ← run ["go", "vet", packageWord p] (some root)
    let found := listedFindings root (listingOf r)
    return found ++ (← runPackages ps)

def runRules (home : String) (files : Strings) : Action (List Finding) := do
  let words := ["pmd", "check", "-R", home ++ "/pmd-rules.xml", "-f", "json"] ++ files.flatMap fun f => ["-d", f]
  let r ← run words (some root)
  if r.code != 0 && r.code != 4 then
    if !r.err.isEmpty then say s!"  ⚠️  Warning: PMD error: {takeChars 200 r.err}"
    return []
  let out := strip r.out
  if out.isEmpty then return []
  brokenRules root files out

/-- What a checker finds in those of the files that are there and that it reads. -/
def find (root : Path) (files : Strings) : Action (List Finding) := do
  let there ← existing root (files.filter c.reads)
  if there.isEmpty then return []
  let home := (← get).checkerHome
  let relative := there.mapM fun p => return (← p.relativeTo root).toString
  match c with
  | .vet => loudly "go vet" (runPackages root (packages root there))
  | .ruff =>
    let names ← relative
    let words := ["ruff", "check", "--isolated", "--select=E9,F,B,PLE", "--ignore=E501,F401", "--output-format=json"]
    quietly (runListing root (words ++ names) (violations root))
  | .biome =>
    let names ← relative
    let words := ["biome", "lint", "--config-path", home ++ "/biome.json", "--reporter=json"]
    quietly (runListing root (words ++ names) (diagnostics root))
  | .pmd =>
    let names ← relative
    loudly "PMD" (runRules root home names)

/-- What a checker finds, and whether its absence has been told. -/
def check (told : Bool) (root : Path) (files : Strings) : Action (List Finding × Bool) := do
  if (← which c.program).isSome then return (← c.find root files, told)
  if told && c.noticeOnce then return ([], told)
  c.notice.forM say
  return ([], true)

def checkTimes (c : Checker) (root : Path) (files : Strings) : Nat → Bool → Action (List (List Finding))
  | 0, _ => return []
  | n + 1, told => do
    let (found, told) ← c.check told root files
    return found :: (← checkTimes c root files n told)

end Checker


/-!
## Preferences about checkers

A file of preferences says by language and checker whether the checker is used, and with what.
-/

structure Preference where
  enabled : Json
  args : Json
  severities : Json
  useDefault : Json

structure Preferences where
  document : Json

namespace Preferences

/-- A member that says what a checker is used with. -/
def entry (settings : Json.Object) : Json := .object settings

def fallback : Preferences :=
  ⟨.object [("python", .object [
    ("pylint", entry [("enabled", true), ("args", "--disable=all --enable=E0611,E0401,E1101,E0602")]),
    ("ruff", entry [("enabled", false), ("args", "--output-format=json")])])]⟩

def standard : Preferences :=
  ⟨.object [("python", .object [("ruff", entry [("enabled", true), ("args", "")])]),
    ("typescript", .object [("eslint", entry [("enabled", false)]), ("biome", entry [("enabled", true)])]),
    ("go", .object [("golangci-lint", entry [("enabled", false)]), ("vet", entry [("enabled", false)])]),
    ("java", .object [("pmd", entry [("enabled", true)])])]⟩

/-- The document in a file; an empty one counts as an empty object. -/
def readDocument (p : Path) : Action Json := do
  match Yaml.read (← Files.readText p) with
  | .ok v => return if v.toJson.truthy then v.toJson else .object []
  | .error e => throw (.invalid (e.message p.toString))

/-- Loads preferences; without a file, or with one that cannot be read, the fallback holds. -/
def load (p : Path) : Action Preferences := do
  if !(← Files.present p) then return fallback
  match ← attempt (readDocument p) with
  | .ok v => return ⟨v⟩
  | .error e =>
    say s!"⚠️  Warning: Failed to load configuration from {p.toString}: {e.message}"
    return fallback

def get? (p : Preferences) (language checker : String) : Result (Option Preference) := do
  let ofLanguage ← p.document.memberOr language (.object [])
  let said ← ofLanguage.memberOr checker (.object [])
  if !said.truthy then return none
  let severities := (← said.member "severity_map").getD .null
  return some {
    enabled := ← said.memberOr "enabled" true
    args := ← said.memberOr "args" ""
    severities := if severities.truthy then severities else .object []
    useDefault := ← said.memberOr "use_default_config" .null }

def enabled (p : Preferences) (language checker : String) : Result Json := do
  return match ← p.get? language checker with
    | none => false
    | some q => q.enabled

end Preferences

def Preference.toJson (p : Preference) : Json :=
  .object [("enabled", p.enabled), ("args", p.args), ("severity_map", p.severities), ("use_default_config", p.useDefault)]

/-!
## Which checker reads which file

Checkers are registered under file endings; several may share an ending. The changed files of a review go to all
checkers of their endings.
-/

structure Registry where
  checkers : List Checker := []
  endings : List (String × List Checker) := []

namespace Registry

def addOnce (cs : List Checker) (c : Checker) : List Checker := if cs.contains c then cs else cs ++ [c]

def normalEnding (e : String) : String := lowered (if beginsWith "." e then e else "." ++ e)

variable (r : Registry)

def register (c : Checker) (endings : Strings) : Registry :=
  { checkers := addOnce r.checkers c
    endings := endings.foldl (fun es e => Fields.modify es (normalEnding e) [] fun cs => addOnce cs c) r.endings }

def ofFile (file : String) : List Checker := (Fields.get? r.endings (lowered (Path.ofString file).suffix)).getD []

def addTo (groups : List (Checker × Strings)) (c : Checker) (file : String) : List (Checker × Strings) :=
  if groups.any (·.1 == c) then groups.map fun (d, fs) => if d == c then (d, fs ++ [file]) else (d, fs)
  else groups ++ [(c, [file])]

def group (files : Strings) : List (Checker × Strings) :=
  files.foldl (fun groups f => (r.ofFile f).foldl (fun groups c => addTo groups c f) groups) []

def standard : Registry :=
  Checker.all.foldl (fun r c =>
    match Preferences.standard.enabled c.key.1 c.key.2 with
    | .ok v => if v.truthy then r.register c c.extensions else r
    | .error _ => r) {}

end Registry

/-- With what a checker of a name is made: its arguments and whether to use its default configuration. -/
def arguments (p : Preferences) (checker : String) : Result (Json × Json) := do
  let (language, short) := Checker.keyOfName checker
  if language == "" then return ("", .null)
  match ← p.get? language short with
  | none => return ("", .null)
  | some q => return (if q.args.truthy then q.args else "", q.useDefault)

def findAll : List (Checker × Strings) → Action (List Finding)
  | [] => return []
  | (c, files) :: rest => do
    let found ← match ← attempt (c.check false root files) with
      | .ok (found, _) => pure found
      | .error e => do
        say s!"  ⚠️  Warning: {c.name} failed: {e.message}"
        pure []
    return found ++ (← findAll rest)

/-- The files that changed between two branches; when git does not say, those the diff names. -/
def changedFiles (diff base head : String) (settings : Option Settings) : Action Strings := do
  match ← attempt (Repository.changedPaths settings root base head) with
  | .ok files => return files
  | .error e =>
    say s!"  ⚠️  Warning: Could not get changed files from Git: {e.message}"
    return Repository.pathsInDiff settings diff

def checkChange (diff base head : String) (settings : Option Settings) : Action (List Finding) := do
  findAll root (Registry.standard.group (← changedFiles root diff base head settings))

end PatchReview.Lint
