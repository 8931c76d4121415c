import PatchReview.Files
import PatchReview.Pattern.Glob
import PatchReview.Pattern.Regex.Reader

/-!
# Searching files

A search goes through the text files below a directory, source directories first, and gives each line that has a
text or matches an expression, with the lines around it. The same search is answered once and for all in a run.
-/

namespace PatchReview.Search

open Action Files

structure Query where
  pattern : String
  isRegex : Bool := false
  caseSensitive : Bool := true
  /-- Globs for the files to look into, by name or relative path. -/
  wanted : Strings := ["*"]
  unwanted : Strings := []
  context : Int := 10
  mostMatches : Int := 50

structure Hit where
  file : String
  line : Nat
  text : String
  first : Int
  last : Int
  around : Strings

def Hit.toJson (h : Hit) : Json :=
  .object [("file", h.file), ("line_number", h.line), ("matched_line", h.text), ("context_start_line",
    .int h.first), ("context_end_line", h.last), ("context", Json.texts h.around)]

def skippedDirectories : Strings := [
  ".git", "node_modules", "__pycache__", ".pytest_cache", ".mypy_cache", ".venv", "venv", "env",
  ".env", "dist", "build", ".idea", ".vscode", ".DS_Store"]

variable (q : Query) (root name : String)

def skips : Bool := skippedDirectories.contains name || beginsWith "." name

def firstDirectories : Strings := ["src", "app", "packages", "sentry"]

def lastDirectories : Strings := ["tests", "test", "docs", "doc", "examples", "fixtures", "scripts"]

/-- The place of a directory among its neighbours, before its name is looked at. -/
def directoryRank : Nat × Nat :=
  match firstDirectories.findIdx? (· == name), lastDirectories.findIdx? (· == name) with
  | some n, _ => (0, n)
  | none, some n => (2, n)
  | none, none => (1, 0)

def directoryBefore (a b : String) : Bool :=
  let x := directoryRank a
  let y := directoryRank b
  if x.1 != y.1 then x.1 < y.1
  else if x.2 != y.2 then x.2 < y.2
  else decide (a ≤ b)

/-- Whether bytes look like no text: a zero byte, or less than seven tenths printable characters. -/
def looksBinary (b : Bytes) : Bool :=
  let chunk := b.take 8192
  let texts := chunk.countP fun x => (32 ≤ x && x < 127) || x == 9 || x == 10 || x == 13
  chunk.contains 0 || (!chunk.isEmpty && texts * 10 < 7 * chunk.length)

/-- Whether a file looks like no text or cannot be read. -/
def isBinary (p : Path) : Action Bool := do
  match ← attempt (readBytes p) with
  | .ok b => return looksBinary b
  | .error _ => return true

/-- Whether a file is asked for by its name or its relative path. -/
def asksFor (globs : Strings) (relative : Path) : Bool :=
  globs.any fun g => Glob.accepts g relative.name || Glob.accepts g relative.toString

def Query.regex : Except Pattern.RegexError Pattern.Regex :=
  let s : Pattern.Switches := { ignoreCase := !q.caseSensitive }
  if q.isRegex then Pattern.Regex.read q.pattern s else .ok (Pattern.Regex.literal q.pattern s)

def hitsIn (r : Pattern.Regex) (file : String) (lines : Strings) : List Hit :=
  let total := lines.length
  (lines.zipIdx 1).filterMap fun (line, n) =>
    if r.found line then
      let first := max 1 ((n : Int) - q.context)
      let last := min (total : Int) (n + q.context)
      let around := ((lines.zipIdx 1).filter fun (_, k) => first ≤ (k : Int) && (k : Int) ≤ last).map
        fun (l, k) => s!"{k}: {stripRight l}"
      some ⟨file, n, stripRight line, first, last, around⟩
    else none

/-- A search stops at this many hits. -/
def Query.enough : Nat := max 1 q.mostMatches.toNat

def addHits (old new : List Hit) : List Hit := (old ++ new).take q.enough

def searchFile (r : Pattern.Regex) (root : Path) (hits : List Hit) (relative : Path) : Action (List Hit) := do
  if q.enough ≤ hits.length then return hits
  if !asksFor q.wanted relative || asksFor q.unwanted relative then return hits
  let p := root / relative
  if ← isBinary p then return hits
  match ← attempt (readTextDropping p) with
  | .ok text => return addHits q hits (hitsIn q r relative.toString (feedsOf text))
  | .error _ => return hits

/-- The files of a directory and of those below it, in the order of the search; links to directories are not
entered. -/
def filesBelow (root : Path) : Nat → Path → Action (List Path)
  | 0, _ => return []
  | fuel + 1, relative => do
    match ← attempt (list (root / relative)) with
    | .error _ => return []
    | .ok entries =>
      let kinds ← entries.mapM fun (name, e) => do
        let inner ← isDirectory (root / relative / name)
        let entered := match e with
          | .directory => true
          | _ => false
        return (name, inner, entered)
      let files := (kinds.filter (!·.2.1)).map (·.1)
      let directories := ((kinds.filter fun k => k.2.1 && k.2.2).map (·.1)).filter (!skips ·)
      let here := files.mergeSort.map fun (n : String) => relative / n
      let below ← (directories.mergeSort directoryBefore).mapM fun (d : String) => filesBelow root fuel (relative / d)
      return here ++ below.flatten

def answer (hits : List Hit) : String :=
  let shown := Json.list (hits.map Hit.toJson)
  let result : Json.Object :=
    if hits.isEmpty then
      [("matches", shown), ("message", s!"No matches found for pattern: {q.pattern}")]
    else if q.enough ≤ hits.length then
      [("matches", shown), ("total", hits.length), ("truncated", true), ("max_results", q.mostMatches),
        ("message", ("Results truncated at max_results; rerun with higher max_results or " ++
          "narrower include_patterns."))]
    else [("matches", shown), ("total", hits.length), ("truncated", false)]
  (Json.object result).render Json.prettyWide

/-- What a search in the files below a directory answers. -/
def searchBelow (q : Query) : Action String := do
  let p := Path.ofString root
  if !(← isDirectory p) then return s!"Error: Repository root does not exist: {root}"
  match q.regex with
  | .error e =>
    if e.isExcess then throw (.overflow e.reason)
    return s!"Error: Invalid regex pattern: {q.pattern}\n{e.message q.pattern}"
  | .ok r =>
    let files ← filesBelow p ((← get).files.entries.length + 1) ⟨"", []⟩
    return answer q (← files.foldlM (searchFile q r p) [])

def key (q : Query) : String :=
  (Json.list [root, q.pattern, q.isRegex, q.caseSensitive,
    Json.texts q.wanted, Json.texts q.unwanted, q.context, q.mostMatches]).render Json.wide

/-- Searches below a directory, or gives the answer of the same search before. -/
def run (q : Query) : Action String := do
  let k := key root q
  match Fields.get? (← get).searches k with
  | some (.text s) => return s
  | _ =>
    let s ← searchBelow root q
    modify fun w => { w with searches := Fields.insert w.searches k s }
    return s

def defaultRoot : Action String := do
  match ← envVar? "REPO_ROOT" with
  | some r => if r != "" then return r
  | none => pure ()
  return (FileTree.pathOf (← get).cwd).toString

/-- A search with a count of the files that its answer names. -/
def counted (q : Query) : Action Json := do
  match ← attempt (run root q) with
  | .ok s =>
    return .object [("result", s), ("pattern", q.pattern), ("match_count", occurrences "File:" s), ("error", .null)]
  | .error e =>
    return .object [("result", ""), ("pattern", q.pattern), ("match_count", .int 0),
      ("error", s!"Error during grep search: {e.message}")]

end PatchReview.Search
