import PatchReview.Fault

/-!
# Paths

A path is a root, which is empty for a relative one, and parts. Empty parts and single dots are dropped when a path
is read; double dots are kept.
-/

namespace PatchReview

structure Path where
  root : String
  parts : Strings
  deriving DecidableEq

namespace Path

/-- Reads a path. Exactly two slashes in front are a root of their own. -/
def ofString (s : String) : Path :=
  let root :=
    if beginsWith "//" s && !beginsWith "///" s then "//"
    else if beginsWith "/" s then "/"
    else ""
  ⟨root, (cutAt "/" s).filter fun p => p != "" && p != "."⟩

variable (p : Path)

/-- The text of a path; an empty one is a dot. -/
def toString : String :=
  let s := p.root ++ joinWith "/" p.parts
  if s == "" then "." else s

def isAbsolute : Bool := p.root != ""

/-- Joins two paths; an absolute second one stands alone. -/
def append (p q : Path) : Path := if q.isAbsolute then q else ⟨p.root, p.parts ++ q.parts⟩

instance : HDiv Path Path Path := ⟨append⟩

instance : HDiv Path String Path := ⟨fun p s => p.append (ofString s)⟩

def name : String := p.parts.getLast?.getD ""

def parent : Path := ⟨p.root, p.parts.dropLast⟩

/-- The name cut before its last dot, which is neither first nor last: the stem and the ending with its
dot. -/
def splitName (name : String) : String × String :=
  match cutLast? "." name with
  | some (stem, ending) => if stem == "" || ending == "" then (name, "") else (stem, "." ++ ending)
  | none => (name, "")

def suffix : String := (splitName p.name).2

def allParts : Strings := if p.root == "" then p.parts else p.root :: p.parts

def below? (p base : Path) : Option Path :=
  if p.root == base.root && p.parts.take base.parts.length == base.parts then
    some ⟨"", p.parts.drop base.parts.length⟩
  else none

/-- The rest of a path below another one, or why there is none. -/
def relativeTo (p base : Path) : Result Path :=
  match p.below? base with
  | some r => .ok r
  | none => .error (.invalid (s!"{quoted p.toString} is not in the subpath of " ++
      s!"{quoted base.toString} OR one path is relative and the other is absolute."))

end Path

end PatchReview
