import PatchReview.Chunk.Entry
import PatchReview.Number.Twister

/-!
# Packing files into chunks

The files of a group are packed into chunks in order of importance. A chunk is full when the next file does not fit;
a file that is too long for any chunk is cut and has a chunk of its own.
-/

namespace PatchReview

open Number

structure Chunk where
  id : String
  group : String := ""
  files : List Chunk.Entry := []
  diff : String := ""
  changed : Int := 0
  score : Float := 0.0
  must : Bool := false

namespace Chunk

/-- How long chunks and the diffs in them may be. A limit of a diff that is not positive counts as none. -/
structure Limits where
  chunk : Int
  diff : Int

def diffMark := "\n...[truncated]..."

def fileMark := "\n...[chunk-truncated]..."

variable (l : Limits) (group : String) (files : List Entry)

def limitedDiff (diff : String) : String :=
  if 0 < l.diff ∧ l.diff < (diff.length : Int) then takeChars l.diff.toNat diff ++ diffMark else diff

def fileSection (e : Entry) : String :=
  "=== FILE: " ++ Risk.normalPath e.path ++ " ===\n" ++ limitedDiff l e.diff ++ "\n"

/-- Whether a file comes before another one of its group: by score, changed lines and path. -/
def Entry.precedes (a b : Entry) : Bool :=
  let sa := order a.score
  let sb := order b.score
  if sa != sb then sb < sa
  else if a.changed != b.changed then b.changed < a.changed
  else a.path ≤ b.path

abbrev Load := List (Entry × String)

def Load.chars (load : Load) : Nat := total (load.map (·.2.length))

/-- Distributes files over loads, in order; `load` is the one being filled. -/
def loads (load : Load) : List Entry → List Load
  | [] => if load.isEmpty then [] else [load]
  | e :: rest =>
    let text := fileSection l e
    if load.isEmpty then
      if l.chunk < (text.length : Int) then [(e, leadingChars l.chunk text ++ fileMark)] :: loads [] rest
      else loads [(e, text)] rest
    else if l.chunk < ((load.chars + text.length : Nat) : Int) then load :: loads [(e, text)] rest
    else loads (load ++ [(e, text)]) rest

/-- The chunk of a load, the `number`th of its group. -/
def ofLoad (number : Nat) (load : Load) : Chunk :=
  let files := load.map (·.1)
  { id := s!"{group}:{number}"
    group
    files
    diff := strip (joinWith "\n" (load.map (·.2)))
    changed := totalWhole (files.map (·.changed))
    score := (files.map Entry.score).foldl (· + ·) 0.0
    must := files.any (·.strong) }

def packGroup : List Chunk :=
  (loads l [] (files.mergeSort Entry.precedes)).zipIdx.map fun (load, k) => ofLoad group (k + 1) load

def pack : List Chunk :=
  ((grouped Entry.group files).mergeSort fun a b => a.1 ≤ b.1).flatMap fun (group, es) => packGroup l group es

end Chunk

end PatchReview

/-!
## Selecting chunks

Of many chunks only some are looked at: those that must be, and the most important ones up to a number. One more may
be taken from the rest by chance.
-/

namespace PatchReview.Chunk

structure Quota where
  /-- Fewer chunks than this are all looked at, when it is positive. -/
  allBelow : Int := 4
  /-- The most chunks, when it is positive. -/
  most : Int := 10
  share : Float := 0.3
  least : Int := 4
  /-- The seed for taking one more chunk by chance, if one is to be. -/
  seed : Option Int := none

variable (a b : Chunk) (q : Quota) (cs : List Chunk)

/-- The number of chunks to look at, of `n`. -/
def Quota.count (n : Nat) : Result Int :=
  let wanted := Float.ofNat n * q.share
  match Number.ceiling? wanted with
  | none =>
    if wanted.isNaN then .error (.invalid "cannot convert float NaN to integer")
    else .error (.overflow "cannot convert float infinity to integer")
  | some k =>
    let k := max q.least k
    .ok (min n (if 0 < q.most then min q.most k else k))

/-- Whether a chunk is shown before another one: those that must be looked at first, then by score and name. -/
def shownBefore : Bool :=
  let sa := Number.order a.score
  let sb := Number.order b.score
  if a.must != b.must then a.must else if sa != sb then sb < sa else a.id ≤ b.id

def skippedBefore : Bool :=
  let sa := Number.order a.score
  let sb := Number.order b.score
  if sa != sb then sb < sa else a.id ≤ b.id

def takenBefore : Bool :=
  let sa := Number.order a.score
  let sb := Number.order b.score
  if sa != sb then sb < sa else if a.changed != b.changed then b.changed < a.changed else a.id ≤ b.id

def named (c : Chunk) : Bool := cs.any (·.id == c.id)

/-- Takes a chunk unless one of its name has been taken. -/
def takeNew (taken : List Chunk) (c : Chunk) : List Chunk := if named taken c then taken else taken ++ [c]

/-- Takes the chunks that must be looked at, then others from the most important on until there are `k`. -/
def top (k : Int) (cs : List Chunk) : List Chunk :=
  let must := (cs.filter (·.must)).foldl takeNew []
  ((cs.filter (!·.must)).mergeSort takenBefore).foldl
    (fun taken c => if k ≤ (taken.length : Int) then taken else takeNew taken c) must

def others (cs taken : List Chunk) : List Chunk := cs.filter (!named taken ·)

def takeByChance (seed : Int) (cs taken : List Chunk) : List Chunk :=
  let rest := others cs taken
  match rest[Number.Twister.below seed.natAbs rest.length]? with
  | some c => taken ++ [c]
  | none => taken

structure Selection where
  selected : List Chunk
  skipped : List Chunk

def select : Result Selection := do
  if cs.isEmpty then return ⟨[], []⟩
  if 0 < q.allBelow ∧ (cs.length : Int) < q.allBelow then return ⟨cs.mergeSort shownBefore, []⟩
  let taken := top (← q.count cs.length) cs
  let taken := match q.seed with
    | some seed => takeByChance seed cs taken
    | none => taken
  return ⟨taken.mergeSort shownBefore, (others cs taken).mergeSort skippedBefore⟩

end PatchReview.Chunk
