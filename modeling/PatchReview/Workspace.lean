import PatchReview.Index.Store
import PatchReview.Chat.Client
import PatchReview.Job

/-!
# Workspaces

What a run works on, as a value: files, environment, the answers that commands and the model give, clocks, and a
record of what was printed, run and asked. An `Action` is a step over a workspace that may fail; what it did before
the fault stays.
-/

namespace PatchReview

/-!
## File trees

A file tree maps absolute trails, which are lists of names, to directories, files and links, in the order they were
made. Looking a path up follows links; a chain of links that does not end is an error of its own.
-/

inductive Content where
  | bytes (b : Bytes)
  | index (ix : Index)

inductive Entry where
  | directory
  | file (content : Content) (modified : Float)
  | link (target : String)

/-- A trail: the names from the root down. -/
abbrev Trail := Strings

/-- Entries below the root, which is always a directory. -/
structure FileTree where
  entries : List (Trail × Entry) := []

namespace FileTree

variable (t : FileTree) (p cwd : Trail)

def entry? : Option Entry := if p.isEmpty then some .directory else (t.entries.find? (·.1 == p)).map (·.2)

/-- The most links that are followed for one path. -/
def linkLimit : Nat := 40

def nameLimit : Nat := 255

/-- The number of bytes from which on a path is too long. -/
def pathLimit : Nat := 4096

/-- Follows parts from a directory. Where a link is met, `jump` goes on from the directory and with the parts it leads
to. -/
def followWith (jump : Trail → Strings → Except SystemCause Trail) :
    Trail → Strings → Except SystemCause Trail
  | here, [] => .ok here
  | here, c :: rest =>
    if c == ".." then followWith jump here.dropLast rest
    else if nameLimit < c.utf8ByteSize then .error .nameTooLong
    else
      let p := here ++ [c]
      match t.entry? p with
      | none => .error .noEntry
      | some .directory => followWith jump p rest
      | some (.file _ _) => if rest.isEmpty then .ok p else .error .notDirectory
      | some (.link target) =>
        let q := Path.ofString target
        jump (if q.isAbsolute then [] else here) (q.parts ++ rest)

/-- Follows parts from a directory, with a number of links left to follow. -/
def follow (t : FileTree) : Nat → Trail → Strings → Except SystemCause Trail
  | 0 => t.followWith fun _ _ => .error .tooManyLinks
  | links + 1 => t.followWith (t.follow links)

/-- The place a path leads to, relative paths counted from a directory. -/
def locate (p : Path) : Except SystemCause Trail :=
  if pathLimit ≤ p.toString.utf8ByteSize then .error .nameTooLong
  else t.follow linkLimit (if p.isAbsolute then [] else cwd) p.parts

/-- Whether a path holds a null character, which no name can. -/
def holdsNull (p : Path) : Bool := p.toString.toList.contains (Char.ofNat 0)

def nullFault : Fault := .invalid "embedded null byte"

/-- The entry a path leads to, if there is one. A path that is too long is a fault of its own. -/
def find? (p : Path) : Result (Option Entry) :=
  if holdsNull p then .ok none
  else match t.locate cwd p with
    | .ok q => .ok (t.entry? q)
    | .error .nameTooLong => .error (.system .nameTooLong p.toString)
    | .error _ => .ok none

def isFile : Option Entry → Bool
  | some (.file _ _) => true
  | _ => false

def isDirectory : Option Entry → Bool
  | some .directory => true
  | _ => false

/-- Resolves links part by part as far as the path goes, keeping what is not there as it is. `active` are the links
being resolved; meeting one of them again ends the resolution with `false`. `jump` resolves what the first of them
leads to. -/
def resolveWith (jump : List Trail → Trail → Strings → Trail × Bool) (active : List Trail) :
    Trail → Strings → Trail × Bool
  | here, [] => (here, true)
  | here, c :: rest =>
    if c == ".." then resolveWith jump active here.dropLast rest
    else
      let p := here ++ [c]
      match t.entry? p with
      | some (.link target) =>
        if active.contains p then (p ++ rest, false)
        else
          let q := Path.ofString target
          let (r, ok) := jump (p :: active) (if q.isAbsolute then [] else here) q.parts
          if ok then resolveWith jump active r rest else (r ++ rest, false)
      | _ => resolveWith jump active p rest

/-- Resolves links part by part, with a number of links that may lead into each other. -/
def resolveParts (t : FileTree) : Nat → List Trail → Trail → Strings → Trail × Bool
  | 0 => t.resolveWith fun active _ _ => (active.headD [], false)
  | links + 1 => t.resolveWith (t.resolveParts links)

def pathOf : Path := ⟨"/", p⟩

/-- The absolute path without links; links that never end are a fault. -/
def resolve (p : Path) : Result Path :=
  if holdsNull p then .error nullFault else
  let (r, ok) := t.resolveParts t.entries.length [] (if p.isAbsolute then [] else cwd) p.parts
  let q := pathOf r
  if ok then .ok q
  else match t.locate cwd q with
    | .error .tooManyLinks => .error (.failed s!"Symlink loop from {quoted q.toString}")
    | _ => .ok q

def put (e : Entry) : FileTree :=
  if t.entries.any (·.1 == p) then
    ⟨t.entries.map fun (q, f) => if q == p then (q, e) else (q, f)⟩
  else ⟨t.entries ++ [(p, e)]⟩

def makeParents : FileTree :=
  (List.range p.length).foldl (fun t n =>
    let q := p.take n
    if (t.entry? q).isSome then t else t.put q .directory) t

def removeAll : FileTree := ⟨t.entries.filter fun (q, _) => q.take p.length != p⟩

def children : List (String × Entry) :=
  t.entries.filterMap fun (q, e) =>
    if q.length == p.length + 1 && q.take p.length == p then q.getLast?.map ((·, e)) else none

/-- Where a path that may not be there yet would stand: its directory must be there. -/
def target (p : Path) : Except SystemCause Trail :=
  match t.locate cwd p with
  | .ok q => .ok q
  | .error .noEntry => do
    let parent ← t.locate cwd p.parent
    match t.entry? parent with
    | some .directory =>
      let q := parent ++ [p.name]
      match t.entry? q with
      | some (.link l) =>
        -- a link to a name that is missing: the name is made where the link points
        let l := Path.ofString l
        let dir ← t.locate parent l.parent
        return dir ++ [l.name]
      | _ => return q
    | _ => .error .notDirectory
  | .error c => .error c

end FileTree

/-!
## Moments

A calendar date with a time of day, to the second.
-/

structure Moment where
  year : Nat := 1970
  month : Nat := 1
  day : Nat := 1
  hour : Nat := 0
  minute : Nat := 0
  second : Nat := 0

namespace Moment

def two (n : Nat) : String := padLeft '0' 2 (toString n)

variable (m : Moment) (sep : String)

def date : String := joinWith sep [padLeft '0' 4 (toString m.year), two m.month, two m.day]

def time : String := joinWith sep [two m.hour, two m.minute, two m.second]

def iso : String := m.date "-" ++ "T" ++ m.time ":"

def stamp : String := m.date "" ++ "_" ++ m.time ""

end Moment

/-- Something put into the file tree: bytes, with the syntax tree they have if one is known, a link or an empty
directory. -/
inductive Deposit where
  | bytes (b : Bytes) (tree : Option Syntax.Tree)
  | link (target : String)
  | directory

/-- A change a command makes to the files below the working directory. -/
inductive FileChange where
  | write (path : String) (deposit : Deposit)
  | remove (path : String)
  | makeDirectory (path : String)
  | removeTree (path : String)

structure CommandReply where
  code : Int := 0
  out : String := ""
  err : String := ""
  missing : Bool := false
  changes : List FileChange := []

structure CommandCall where
  words : Strings
  directory : Option String

structure WebReply where
  status : Int := 200
  body : Json := .null

structure WebRequest where
  method : String
  url : String
  headers : Pairs
  body : Json := .null

structure Workspace where
  files : FileTree := {}
  cwd : Trail := []
  environment : Pairs := []
  /-- Variables in a file, which are loaded when no settings are found. -/
  envFile : Pairs := []
  /-- Replies by command line, used up one a call; the last one stays. -/
  commands : List (String × List CommandReply) := []
  programs : Strings := []
  /-- Seconds since the epoch, and what each reading adds. -/
  clock : Float := 1000.0
  clockStep : Float := 0.0
  monotonic : Float := 100.0
  moment : Moment := {}
  replies : List Chat.Reply := []
  questions : List Chat.Question := []
  printed : String := ""
  calls : List CommandCall := []
  trees : List (Bytes × Syntax.Tree) := []
  unparsed : Strings := []
  checkerHome : String := "config"
  promptHome : String := "prompts"
  /-- The root of the storage in use, and whether it has been made. -/
  storage : Option (Path × Bool) := none
  storageKind : String := "local"
  /-- Search results by the search, kept for the whole run. -/
  searches : Json.Object := []
  /-- The jobs, once their table has been made. -/
  jobs : Option Job.Table := none
  /-- What the web answers, and what was sent to it. -/
  webReplies : List WebReply := []
  webRequests : List WebRequest := []
  /-- What was posted, with the kind of the post. -/
  posts : Json.Object := []

namespace Workspace

def place (w : Workspace) (path : String) (d : Deposit) : Workspace :=
  let p := w.cwd ++ (Path.ofString path).parts
  let files := w.files.makeParents p
  match d with
  | .directory => { w with files := if (files.entry? p).isSome then files else files.put p .directory }
  | .link target => { w with files := files.put p (.link target) }
  | .bytes b tree =>
    let q := match files.target w.cwd (FileTree.pathOf p) with
      | .ok q => q
      | .error _ => p
    { w with
      files := files.put q (.file (.bytes b) w.clock)
      trees := match tree with
        | some t => (b, t) :: w.trees
        | none => w.trees }

/-- Makes a change to the files. Only a file that is there can be removed, and no directory. -/
def change (w : Workspace) : FileChange → Result Workspace
  | .write path d => .ok (w.place path d)
  | .remove path =>
    let p := w.cwd ++ (Path.ofString path).parts
    match w.files.entry? p with
    | none => .error (.system .noEntry (FileTree.pathOf p).toString)
    | some .directory => .error (.system .isDirectory (FileTree.pathOf p).toString)
    | some _ => .ok { w with files := w.files.removeAll p }
  | .removeTree path => .ok { w with files := w.files.removeAll (w.cwd ++ (Path.ofString path).parts) }
  | .makeDirectory path => .ok (w.place path .directory)

end Workspace

abbrev Action := ExceptT Fault (StateM Workspace)

namespace Action

def ofExcept {α : Type} : Result α → Action α
  | .ok a => pure a
  | .error e => throw e

/-- Runs a step; a fault that is an error is handed on as a value. -/
def attempt {α : Type} (a : Action α) : Action (Result α) := fun w =>
  match a.run w with
  | (.ok x, w) => (.ok (.ok x), w)
  | (.error e, w) => (if e.isError then .ok (.error e) else .error e, w)

def say (s : String) : Action Unit := modify fun w => { w with printed := w.printed ++ s ++ "\n" }

def envVar? (name : String) : Action (Option String) := do
  return Fields.get? (← get).environment name

def setVariable (name value : String) : Action Unit :=
  modify fun w => { w with environment := Fields.insert w.environment name value }

def dropVariable (name : String) : Action Unit :=
  modify fun w => { w with environment := Fields.erase w.environment name }

/-- Loads the variables of the file for them; what is set already stays. -/
def loadVariables : Action Unit := modify fun w => { w with
  environment := w.envFile.foldl (fun env (k, v) => if Fields.has env k then env else Fields.insert env k v)
    w.environment }

def now : Action Float := do
  let w ← get
  set { w with clock := w.clock + w.clockStep }
  return w.clock

end Action

end PatchReview

/-!
## Running commands

A command is its words; its reply is looked up in the workspace. A reply used once gives way to the next one, and
the last one stays.
-/

namespace PatchReview.Command

def takeReply (replies : List CommandReply) : CommandReply × List CommandReply :=
  match replies with
  | [] => ({ code := 1 }, [])
  | [r] => (r, [r])
  | r :: rest => (r, rest)

def reply (w : Workspace) (line : String) : CommandReply × Workspace :=
  let use (key : String) (replies : List CommandReply) : CommandReply × Workspace :=
    let (r, rest) := takeReply replies
    (r, { w with commands := Fields.insert w.commands key rest })
  match Fields.get? w.commands line with
  | some replies => use line replies
  | none =>
    match Fields.get? w.commands "*" with
    | some replies => use "*" replies
    | none => ({ code := 1 }, w)

def applyChanges (cs : List FileChange) : Action Unit := cs.forM fun c => do
  set (← Action.ofExcept ((← get).change c))

variable (words : Strings) (directory : Option Path)

def run : Action CommandReply := do
  let w ← get
  let (r, w) := reply w (joinWith " " words)
  set ({ w with calls := w.calls ++ [⟨words, directory.map Path.toString⟩] } : Workspace)
  applyChanges r.changes
  if r.missing then throw (.system .noEntry (words.headD ""))
  return r

def check : Action CommandReply := do
  let r ← run words directory
  if r.code != 0 then throw (.command words r.code)
  return r

def which (program : String) : Action (Option String) := do
  let w ← get
  return if w.programs.contains program then some ("/usr/bin/" ++ program) else none

end PatchReview.Command
