import PatchReview.Files

/-!
# Storage

Values are kept in files, one for each key of a collection. A run has one storage; asking for it again gives the
same one.
-/

namespace PatchReview.Storage

open Action Files

def localKind := "local"

variable (collection key kind : String)

/-- Gets the storage of a kind ready, at a root of its own if it is new. -/
def use (root : Option Path) : Action Unit := do
  let w ← get
  let kind := if kind == "" then w.storageKind else kind
  if kind != localKind then
    throw (.invalid (s!"Unsupported storage type: {kind}. " ++
      "Supported types: local (SQL/NoSQL backends coming soon)"))
  if w.storage.isNone then
    let root ← resolve (root.getD (FileTree.pathOf w.cwd / ".storage"))
    modify fun w => { w with storage := some (root, false) }

def reset : Action Unit := modify fun w => { w with storage := none }

def setDefault : Action Unit := modify fun w => { w with storageKind := kind }

/-- The root of the storage, made if it is not there yet. -/
def connect : Action Path := do
  use localKind none
  match (← get).storage with
  | some (root, _) =>
    makeDirectories root
    modify fun w => { w with storage := some (root, true) }
    return root
  | none => throw (.failed "no storage")

/-- The root of the storage; its directory is made on first use only. -/
def connected : Action Path := do
  use localKind none
  match (← get).storage with
  | some (root, true) => return root
  | _ => connect

def safePart (s : String) : String := substitute ".." "" (substitute "/" "_" s)

def fileOf (root : Path) (collection key : String) : Path := root / safePart collection / (safePart key ++ ".json")

/-- What is written of a value: all of its text, or a beginning and the reason why there is no more. -/
structure Draft where
  written : String := ""
  complaint : Option String := none

namespace Draft

/-- Writes a piece, all of it or, if no bytes stand for it, nothing of it and nothing more. -/
def add (d : Draft) (piece : String) : Draft :=
  match d.complaint, Text.unpairedRun? piece.toList with
  | some _, _ => d
  | none, some (first, last) => { d with complaint := (Cell.unencodable piece.toList first last).message }
  | none, none => { d with written := d.written ++ piece }

open Json

mutual

/-- Writes a value behind a mark; a text is one piece with it. -/
def addValue (level : Nat) (mark : String) (d : Draft) : Json → Draft
  | .list vs => if vs.isEmpty then d.add (mark ++ "[]") else addItems level "[" (d.add mark) vs
  | .object fs => if fs.isEmpty then d.add (mark ++ "\x7b\x7d") else addMembers level "\x7b" (d.add mark) fs
  | v => d.add (mark ++ v.render prettyWide)

def addItems (level : Nat) (mark : String) (d : Draft) : List Json → Draft
  | [] => d.add (prettyWide.newline level ++ "]")
  | v :: vs => addItems level "," (addValue (level + 1) (mark ++ prettyWide.newline (level + 1)) d v) vs

def addMembers (level : Nat) (mark : String) (d : Draft) : List (String × Json) → Draft
  | [] => d.add (prettyWide.newline level ++ "\x7d")
  | (k, v) :: fs =>
    let d := (d.add (mark ++ prettyWide.newline (level + 1))).add (stringText false k ++ ": ")
    addMembers level "," (addValue (level + 1) "" d v) fs

end

def ofJson (v : Json) : Draft := addValue 0 "" {} v

end Draft

def save (d : Draft) : Action Unit := do
  let file := fileOf (← connected) collection key
  makeDirectories file.parent
  match ← attempt (writeText file d.written) with
  | .error (.invalid reason) => throw (.invalid s!"Data is not JSON-serializable: {reason}")
  | .error e => throw (.unreadable s!"Failed to save data to {file.toString}: {e.message}")
  | .ok () =>
    match d.complaint with
    | some c => throw (.invalid s!"Data is not JSON-serializable: {c}")
    | none => pure ()

def load : Action (Option Json) := do
  let file := fileOf (← connected) collection key
  if !(← present file) then return none
  match ← attempt (readText file) with
  | .error (.undecodable e) => throw (.undecodable e)
  | .error e => throw (.unreadable s!"Failed to load data from {file.toString}: {e.message}")
  | .ok text =>
    match Json.read text with
    | .ok v => return some v
    | .error e =>
      if e.isForm then throw (.invalid s!"Invalid JSON in {file.toString}: {e.message}") else throw (.malformed e)

def contains : Action Bool := do
  present (fileOf (← connected) collection key)

def erase : Action Unit := do
  let file := fileOf (← connected) collection key
  if ← present file then
    match ← attempt (remove file) with
    | .ok () => pure ()
    | .error e => throw (.unreadable s!"Failed to delete {file.toString}: {e.message}")

end PatchReview.Storage
