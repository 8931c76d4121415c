import PatchReview.Workspace

/-!
# Files of a workspace

Reading and writing files, directories and links. Faults name the path as it was given.
-/

namespace PatchReview.Files

open FileTree

def guarded {α : Type} (p : Path) : Except SystemCause α → Action α
  | .ok a => pure a
  | .error cause => throw (.system cause p.toString)

variable (p : Path) (s : String)

def place : Action Trail := do
  if holdsNull p then throw nullFault
  let w ← get
  guarded p (w.files.locate w.cwd p)

def newPlace : Action Trail := do
  if holdsNull p then throw nullFault
  let w ← get
  guarded p (w.files.target w.cwd p)

def entry? : Action (Option Entry) := do
  let w ← get
  Action.ofExcept (w.files.find? w.cwd p)

def resolve : Action Path := do
  let w ← get
  Action.ofExcept (w.files.resolve w.cwd p)

def present : Action Bool := return (← entry? p).isSome

def isFile : Action Bool := return FileTree.isFile (← entry? p)

def isDirectory : Action Bool := return FileTree.isDirectory (← entry? p)

def content : Action Content := do
  let q ← place p
  let w ← get
  match w.files.entry? q with
  | some (.file c _) => return c
  | _ => throw (.system .isDirectory p.toString)

def readBytes : Action Bytes := do
  match ← content p with
  | .bytes b => return b
  | .index _ => return []

def size : Action Nat := do
  return (← readBytes p).length

def unified : String := String.ofList (Text.unifyFeeds s.toList)

def readText : Action String := do
  let b ← readBytes p
  match Utf8.decode b with
  | .ok s => return unified s
  | .error e => throw (.undecodable e)

def readTextDropping : Action String := do
  return unified (Utf8.decodeDropping (← readBytes p))

def writeContent (c : Content) : Action Unit := do
  let q ← newPlace p
  let w ← get
  match w.files.entry? q with
  | some .directory => throw (.system .isDirectory p.toString)
  | _ => set { w with files := w.files.put q (.file c w.clock) }

def writeBytes (b : Bytes) : Action Unit := writeContent p (.bytes b)

def writeText : Action Unit := writeBytes p (utf8 s)

def touch : Action Unit := do
  if ← isDirectory p then throw (.system .isDirectory p.toString)
  if !(← present p) then writeText p ""

def makeDirectories : Action Unit := do
  if holdsNull p then throw nullFault
  let w ← get
  let full := if p.isAbsolute then p else pathOf w.cwd / p
  go p (full.parts.length + 1) full
where
  go (given : Path) : Nat → Path → Action Unit
    | 0, _ => pure ()
    | fuel + 1, q => do
      let w ← get
      match w.files.locate w.cwd q with
      | .ok r =>
        match w.files.entry? r with
        | some .directory => pure ()
        | _ => throw (.system .alreadyThere given.toString)
      | .error .noEntry => do
        if q.parts.isEmpty then pure ()
        else
          go given fuel q.parent
          let w ← get
          let r ← guarded given (w.files.target w.cwd q)
          set { w with files := w.files.put r .directory }
      | .error cause => throw (.system cause given.toString)

def remove : Action Unit := do
  if holdsNull p then throw nullFault
  let w ← get
  let parent ← guarded p (w.files.locate w.cwd p.parent)
  let q := parent ++ [p.name]
  match w.files.entry? q with
  | none => throw (.system .noEntry p.toString)
  | some .directory => throw (.system .isDirectory p.toString)
  | some _ => set { w with files := w.files.removeAll q }

def removeTree : Action Unit := do
  let q ← place p
  let w ← get
  set { w with files := w.files.removeAll q }

def list : Action (List (String × Entry)) := do
  let q ← place p
  let w ← get
  match w.files.entry? q with
  | some .directory => return w.files.children q
  | _ => throw (.system .notDirectory p.toString)

def modified : Action Float := do
  let q ← place p
  let w ← get
  match w.files.entry? q with
  | some (.file _ t) => return t
  | _ => return 0.0

def setModified (time : Float) : Action Unit := do
  let q ← place p
  let w ← get
  match w.files.entry? q with
  | some (.file c _) => set { w with files := w.files.put q (.file c time) }
  | _ => pure ()

def copy (src dst : Path) : Action Unit := do
  writeContent dst (← content src)
  setModified dst (← modified src)

end PatchReview.Files
