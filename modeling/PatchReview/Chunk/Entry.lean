import PatchReview.Pattern.Regex.Reader
import PatchReview.Risk.Basic

/-!
# Files of a large change

A large change is looked at in chunks of files. A file is weighed by how much of it changed, by the words in its diff
that hint at danger, by what it adds to an interface, and by what kind of file it is.
-/

namespace PatchReview.Chunk

variable (diff path : String)

/-- The group of a file: the first two parts of its path. -/
def groupOf : String := joinWith "/" (((cutAt "/" (Risk.normalPath path)).filter (· != "")).take 2)

/-- Words that make a file one that must be looked at. -/
def strongWords : String :=
  "\\b(eval|exec|token|secret|permission|acl|authorize|authorization|innerHTML|dangerouslySetInnerHTML)\\b"

def dangerWords : String :=
  "\\b(auth|permission|acl|scope|role|token|secret|csrf|oauth|jwt|signature|"
    ++ "sql|select\\s|insert\\s|update\\s|delete\\s|"
    ++ "deserialize|pickle|yaml\\.load|subprocess|shell|cmd|"
    ++ "async|await|promise|thread|lock|transaction|retry|queue|task|cron|"
    ++ "cache|session|cookie|feature\\s*flag|singleton|global)\\b"

def interfaceWords := "\\b(export|public|def|class|interface|type)\\b"

def findings (pattern : String) (ignoreCase : Bool) (text : String) : List Pattern.Match :=
  match Pattern.Regex.read pattern { ignoreCase } with
  | .ok r => r.allMatches text
  | .error _ => []

/-- How many dangerous words a diff has. -/
def dangerHits : Nat := (findings dangerWords true diff).length

def isStrong : Bool := !(findings strongWords true diff).isEmpty

/-- The most lines that count as added to an interface. -/
def interfaceLimit : Nat := 6

/-- How many added lines of a diff add to an interface, up to a limit. -/
def interfaceHits : Nat :=
  let hits := (linesOf diff).filter fun line =>
    beginsWith "+" line && !(findings interfaceWords false (dropChars 1 line)).isEmpty
  min interfaceLimit hits.length

def kindWeight : Float :=
  let p := lowered (Risk.normalPath path)
  let ends (endings : Strings) := endings.any fun e => finishesWith e p
  if holds "/test" p || beginsWith "tests/" p || ends ["_test.py", ".spec.ts", ".spec.tsx"] then 0.4
  else if ends [".md", ".rst", ".txt"] then 0.2
  else if ends [".yml", ".yaml", ".json", ".toml", ".ini", ".cfg"] then 0.6
  else 1.0

structure Entry where
  path : String
  group : String
  diff : String
  changed : Int
  chars : Int
  danger : Int
  strong : Bool
  interface : Int
  weight : Float

def Entry.score (e : Entry) : Float :=
  let churn := Float.log (1.0 + Number.ofWhole (max 0 e.changed))
  let base := 2.0 * churn + 0.6 * Number.ofWhole (min 6 e.interface) + 0.9 * Number.ofWhole (min 6 e.danger)
  (if e.strong then base + 4.0 else base) * e.weight

def Entry.ofFile (counts : List (String × Nat)) (path : String) : Entry :=
  let text := Diff.excerpt diff path
  { path
    group := groupOf path
    diff := text
    changed := ((Fields.get? counts (Risk.normalPath path)).getD 0 : Nat)
    chars := text.length
    danger := dangerHits text
    strong := isStrong text
    interface := interfaceHits text
    weight := kindWeight path }

def entries (paths : Strings) : Result (List Entry) := do
  let counts := (← Diff.changedFiles diff).foldl (fun counts (path, f) =>
    Fields.insert counts (Risk.normalPath path) (f.added.length + f.modified.length)) []
  return paths.map (Entry.ofFile diff counts)

end PatchReview.Chunk
