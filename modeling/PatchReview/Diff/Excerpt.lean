import PatchReview.Fault

/-!
# Diffs

A diff is read into files with hunks. From these come the changed files with their lines, and excerpts for one file.
-/

namespace PatchReview.Diff

/-!
## Unified diffs

A diff is read line by line into files with hunks. Each line of a hunk knows its number in the old file, in the new
one, or in both. A hunk ends when it has as many lines of either side as its header says; one that has more or
fewer is refused, and with it the whole diff.
-/

open String Text

inductive LineKind where
  | context
  | added
  | removed
  | note
  | trailing
  deriving DecidableEq

structure Line where
  kind : LineKind
  value : String
  source : Option Nat := none
  target : Option Nat := none
  deriving DecidableEq

structure Hunk where
  sourceStart : Nat
  sourceLength : Nat
  targetStart : Nat
  targetLength : Nat
  lines : List Line := []
  deriving DecidableEq

structure PatchFile where
  source : Option String
  target : Option String
  binary : Bool := false
  hunks : List Hunk := []
  deriving DecidableEq

inductive PatchError where
  | unexpectedNewFile
  | unexpectedDeletedFile
  | targetWithoutSource
  | sourceNeverSeen
  | unexpectedHunk
  | unexpectedNote
  | unexpectedBlank
  | hunkLineExpected
  | hunkTooLong
  | hunkTooShort
  /-- A number of more digits than are read. -/
  | numberTooLong
  deriving DecidableEq

def absent := "/dev/null"

structure OpenHunk where
  hunk : Hunk
  sourceAt : Nat
  targetAt : Nat

namespace OpenHunk

variable (o : OpenHunk)

def sourceEnd : Nat := o.hunk.sourceStart + o.hunk.sourceLength

def targetEnd : Nat := o.hunk.targetStart + o.hunk.targetLength

def complete : Bool := o.sourceAt == o.sourceEnd && o.targetAt == o.targetEnd

/-- The kind and value of a line inside a hunk. -/
def lineOf? (s : Chars) : Option (LineKind × Chars) :=
  match s with
  | ' ' :: v => some (.context, v)
  | '+' :: v => some (.added, v)
  | '-' :: v => some (.removed, v)
  | '\\' :: v => some (.note, v)
  | c :: v =>
    if c == '\n' || c == '\r' then
      match v with
      | d :: _ => some (.context, if d == '\n' || d == '\r' then [c, d] else [c])
      | [] => some (.context, [c])
    else none
  | [] => none

def push (kind : LineKind) (value : String) : Except PatchError OpenHunk :=
  let (line, s, t) : Line × Nat × Nat := match kind with
    | .added => (⟨kind, value, none, some o.targetAt⟩, o.sourceAt, o.targetAt + 1)
    | .removed => (⟨kind, value, some o.sourceAt, none⟩, o.sourceAt + 1, o.targetAt)
    | .context => (⟨kind, value, some o.sourceAt, some o.targetAt⟩, o.sourceAt + 1, o.targetAt + 1)
    | _ => (⟨kind, value, none, none⟩, o.sourceAt, o.targetAt)
  if o.sourceEnd < s || o.targetEnd < t then .error .hunkTooLong
  else .ok ⟨{ o.hunk with lines := o.hunk.lines ++ [line] }, s, t⟩

end OpenHunk

/-- What has been read. `current` says that the last file is being read, `header` that lines before its first
hunk are. -/
structure Patch where
  files : List PatchFile := []
  current : Bool := false
  header : Bool := false
  source : Option String := none
  hunk : Option OpenHunk := none

namespace Patch

variable (s : Chars) (p : Patch)

/-- Characters up to a tab or a line end. -/
def field : Chars := s.takeWhile fun c => c != '\t' && c != '\n'

/-- The two names of a header line: parted at the last blank that leaves something on both sides. -/
def headerNames? : Option (String × String) := do
  let rest ← dropLead? "diff --git ".toList s
  let seg := field rest
  let at? := (List.range seg.length).reverse.find? fun p => 0 < p && p + 1 < seg.length && seg[p]? == some ' '
  let p ← at?
  return (ofList (seg.take p), ofList (seg.drop (p + 1)))

/-- Whether a line is some words, a number and its line end. -/
def modeLine (words : String) (s : Chars) : Bool :=
  match dropLead? words.toList s with
  | none => false
  | some rest =>
    match dropRightWhile (· == '\n') rest with
    | [] => false
    | ds => ds.all isDecimal && rest == ds ++ ['\n']

def sideName? (mark : String) (s : Chars) : Option String := do
  let rest ← dropLead? mark.toList s
  match field rest with
  | [] => none
  | name => some (ofList name)

def digits? : Option (Chars × Chars) :=
  let ds := s.takeWhile isDecimal
  if ds.isEmpty then none else some (ds, s.drop ds.length)

/-- A start with an optional length, which is 1 when it is left out. -/
def range? : Option (Chars × Chars × Chars) := do
  let (start, rest) ← digits? s
  match rest with
  | ',' :: r =>
    match digits? r with
    | some (len, rest) => some (start, len, rest)
    | none => some (start, ['1'], rest)
  | _ => some (start, ['1'], rest)

def number (ds : Chars) : Except PatchError Nat :=
  if Number.digitLimit < ds.length then .error .numberTooLong
  else .ok (Number.ofDigits (ds.filterMap digitValue?))

/-- The header of a hunk: start and length of either side, in digits. -/
def hunkHeader? : Option (Chars × Chars × Chars × Chars) := do
  let rest ← dropLead? "@@ -".toList s
  let (a, b, rest) ← range? rest
  let rest ← dropLead? " +".toList rest
  let (c, d, rest) ← range? rest
  let _ ← dropLead? " @@".toList rest
  return (a, b, c, d)

def hunkOf (h : Chars × Chars × Chars × Chars) : Except PatchError Hunk := do
  let (a, b, c, d) := h
  return ⟨← number a, ← number b, ← number c, ← number d, []⟩

def binaryEnd : Bool := (dropLead? " differ".toList s).isSome || (dropLead? " has changed".toList s).isSome

/-- The shortest nonempty part without tabs after which a test succeeds, with its result. -/
def shortest? {α : Type} (test : Chars → Option α) : Chars → Chars → Option (String × α)
  | _, [] => none
  | taken, c :: s =>
    if c == '\t' then none
    else
      let taken := c :: taken
      match test s with
      | some a => some (ofList taken.reverse, a)
      | none => shortest? test taken s

/-- Whether a character may stand in a time after a name. -/
def inTime (c : Char) : Bool := isBlank c || "0123456789:+-".toList.contains c

/-- The ends of the times that may stand here, the longest first: none at all is the last. -/
def afterTime : List Chars :=
  match s with
  | '\t' :: r =>
    let n := (r.takeWhile inTime).length
    ((List.range n).reverse.map fun k => r.drop (k + 1)) ++ [s]
  | s => [s]

/-- The second name in a note on binary files, with what ends the note. -/
def secondName? : Option String := do
  let r ← dropLead? " and ".toList s
  let (name, _) ← shortest? (fun r => if (afterTime r).any binaryEnd then some () else none) [] r
  return name

/-- The names in a note on binary files; a time may follow each. -/
def binaryNames? : Option (String × Option String) := do
  let rest ← dropLead? "Binary file".toList s
  let rest := (dropLead? ['s'] rest).getD rest
  let rest ← dropLead? [' '] rest
  shortest? (fun r => (afterTime r).findSome? fun r =>
    match secondName? r with
    | some name => some (some name)
    | none => if binaryEnd r then some none else none) [] rest

def onLast (f : PatchFile → PatchFile) : Patch :=
  match p.files.getLast? with
  | some file => { p with files := p.files.dropLast ++ [f file] }
  | none => p

def file? : Option PatchFile := if p.current then p.files.getLast? else none

def addToLastHunk (file : PatchFile) (line : Line) : PatchFile :=
  match file.hunks.getLast? with
  | some h => { file with hunks := file.hunks.dropLast ++ [{ h with lines := h.lines ++ [line] }] }
  | none => file

def closeHunk (h : Hunk) : Patch := { p.onLast (fun f => { f with hunks := f.hunks ++ [h] }) with hunk := none }

def readLine (s : Chars) : Except PatchError Patch :=
  match headerNames? s with
  | some (source, target) =>
    .ok { p with
      files := p.files ++ [⟨some source, some target, false, []⟩]
      current := true
      header := true
      source := some source }
  | none =>
  if modeLine "new file mode " s then
    if p.current && p.header then .ok (p.onLast fun f => { f with source := some absent })
    else .error .unexpectedNewFile
  else if modeLine "deleted file mode " s then
    if p.current && p.header then .ok (p.onLast fun f => { f with target := some absent })
    else .error .unexpectedDeletedFile
  else match sideName? "--- " s with
  | some name =>
    let same := p.file?.any (·.source == some name)
    .ok { p with source := some name, current := p.current && same }
  | none =>
  match sideName? "+++ " s with
  | some name =>
    match p.file? with
    | some f => if f.target == some name then .ok p else .error .targetWithoutSource
    | none =>
      match p.source with
      | none => .error .sourceNeverSeen
      | some source =>
        .ok { p with
          files := p.files ++ [⟨some source, some name, false, []⟩]
          current := true
          header := false }
  | none =>
  match hunkHeader? s with
  | some h =>
    if p.current then do
      let h ← hunkOf h
      return { p with header := false, hunk := some ⟨h, h.sourceStart, h.targetStart⟩ }
    else .error .unexpectedHunk
  | none =>
  if (dropLead? "\\ No newline at end of file".toList s).isSome then
    match p.file? with
    | some f =>
      if f.hunks.isEmpty then .error .unexpectedNote
      else .ok (p.onLast fun f =>
        addToLastHunk f ⟨.note, " No newline at end of file\n", none, none⟩)
    | none => .error .unexpectedNote
  else if s == ['\n'] && p.current then
    match p.file? with
    | some f =>
      if f.hunks.isEmpty then .error .unexpectedBlank
      else .ok (p.onLast fun f => addToLastHunk f ⟨.trailing, "\n", none, none⟩)
    | none => .error .unexpectedBlank
  else
    let p := if p.header then p else { p with current := false, header := true }
    match binaryNames? s with
    | none => .ok p
    | some (source, target) =>
      let p := if p.current then p.onLast fun f => { f with binary := true }
        else { p with files := p.files ++ [⟨some source, target, true, []⟩] }
      .ok { p with current := false, header := false, source := some source }

def push (p : Patch) (s : Chars) : Except PatchError Patch :=
  match p.hunk with
  | none => p.readLine s
  | some o =>
    match OpenHunk.lineOf? s with
    | none => .error .hunkLineExpected
    | some (kind, value) => do
      let o ← o.push kind (ofList value)
      return if o.complete then p.closeHunk o.hunk else { p with hunk := some o }

def finish : Except PatchError (List PatchFile) :=
  match p.hunk with
  | none => .ok p.files
  | some o =>
    if o.sourceAt < o.sourceEnd || o.targetAt < o.targetEnd then .error .hunkTooShort
    else .ok (p.closeHunk o.hunk).files

def read (diff : String) : Except PatchError (List PatchFile) := do
  let p ← (feeds diff.toList).foldlM push {}
  p.finish

end Patch

namespace PatchFile

def removed (f : PatchFile) : Bool :=
  f.target == some absent
    || (match f.hunks with
      | [h] => h.targetStart == 0 && h.targetLength == 0
      | _ => false)

def withoutSide (name : String) : String :=
  if beginsWith "a/" name || beginsWith "b/" name then dropChars 2 name else name

/-- The name that a file goes by: the old one, or the new one when the old one is not there or the file was renamed.
A file must have both. -/
def header? (f : PatchFile) : Option String :=
  match f.source, f.target with
  | some source, some target =>
    let renamed := source != absent && target != absent && dropChars 2 source != dropChars 2 target
    some (if source == absent || renamed then target else source)
  | _, _ => none

end PatchFile

/-- A file of a diff, as a parser of diffs gives it. -/
structure FileDiff where
  /-- The name in its header, with the mark of a side. -/
  header : String
  path : String
  binary : Bool := false
  removed : Bool := false
  hunks : List Hunk := []
  deriving DecidableEq

/-- What a file that was read is taken for. A file of one name only cannot be placed. -/
def PatchFile.toDiff (f : PatchFile) : Result FileDiff :=
  match f.header? with
  | some header => .ok ⟨header, withoutSide header, f.binary, f.removed, f.hunks⟩
  | none =>
    if f.source == some absent then .error (.lacking "'NoneType' object has no attribute 'startswith'")
    else .error (.shape "'NoneType' object is not subscriptable")

/-- The files of a diff. A diff that cannot be read has none. -/
def parse (diff : String) : Result (List FileDiff) :=
  match Patch.read diff with
  | .error _ => .ok []
  | .ok files => files.mapM PatchFile.toDiff

/-!
## Changed files

For each file of a diff that is there after the change: the lines of the new file that the diff shows, with their
numbers, and which of them were added or modified. A modified line is an added one right after a removed one at most
three lines away.
-/

structure ChangedFile where
  path : String
  /-- Lines of the new file with their numbers, in order. -/
  lines : List (Int × String)
  added : List Int
  modified : List Int
  /-- Numbers of removed lines in the old file. -/
  removed : List Int

variable (files : List (String × ChangedFile)) (path : String) (added modified : List Int) (f : FileDiff)

/-- A path without blanks around it, one leading `a/` or `b/`, and one leading slash. -/
def normalPath : String := withoutLead "/" (PatchFile.withoutSide (strip path))

def addNumber (ns : List Int) (n : Int) : List Int := if ns.contains n then ns else ns ++ [n]

/-- What has been gathered of a file, and the number that the next line of the new file has when it carries
none of its own. -/
structure Gathered where
  next : Int := 1
  lines : List (Int × String) := []
  added : List Int := []
  modified : List Int := []
  removed : List Int := []

namespace Gathered

variable (g : Gathered)

def number (l : Line) : Int :=
  match l.target with
  | some 0 | none => g.next
  | some n => n

def line (l : Line) : Gathered :=
  match l.kind with
  | .added =>
    let n := g.number l
    { g with next := g.next + 1, lines := g.lines ++ [(n, l.value)], added := addNumber g.added n }
  | .context => { g with next := g.next + 1, lines := g.lines ++ [(g.number l, l.value)] }
  | .removed =>
    match l.source with
    | some n => { g with removed := addNumber g.removed n }
    | none => g
  | _ => g

/-- The numbers of added lines that stand right after a removed line and not far from it. -/
def modifiedIn : List Line → List Int
  | a :: b :: rest =>
    let here : List Int := match a.kind, b.kind, a.source, b.target with
      | .removed, .added, some s, some t => if t != 0 && ((t : Int) - (s : Int)).natAbs ≤ 3 then [(t : Int)] else []
      | _, _, _, _ => []
    here ++ modifiedIn (b :: rest)
  | _ => []

def hunk (h : Hunk) : Gathered :=
  let g := if g.next < h.targetStart then { g with next := h.targetStart } else g
  let g := h.lines.foldl line g
  { g with modified := (modifiedIn h.lines).foldl addNumber g.modified }

end Gathered

def ChangedFile.ofPatch : ChangedFile :=
  let g := f.hunks.foldl Gathered.hunk {}
  { path
    lines := g.lines.mergeSort fun a b => a.1 ≤ b.1
    added := g.added
    modified := g.modified
    removed := g.removed }

/-- Adds a file of a diff to the changed files by path; the last file of a path wins. -/
def addFile : List (String × ChangedFile) :=
  let path := normalPath f.path
  if f.binary || f.removed then files else Fields.insert files path (ChangedFile.ofPatch path f)

def listFiles (fs : List FileDiff) : List (String × ChangedFile) := fs.foldl addFile []

/-- The changed files by path of a diff that some parser reads. -/
def changedFilesBy (parse : String → Result (List FileDiff)) (diff : String) : Result (List (String × ChangedFile)) := do
  if strip diff == "" then return []
  return listFiles (← parse diff)

def changedFiles (diff : String) : Result (List (String × ChangedFile)) := changedFilesBy parse diff

/-- The mark of a line: added, modified or neither. -/
def marker (n : Int) : String := if added.contains n then "+" else if modified.contains n then "~" else " "

def numberedLine (l : Int × String) : String :=
  let number := padLeft ' ' 4 (toString l.1)
  let content := String.ofList
    (Text.dropRightWhile (fun c => c == '\n' || c == '\r') l.2.toList)
  s!"{marker added modified l.1} {number}: {content}"

def listing (lines : List (Int × String)) (added modified : List Int) : String :=
  if lines.isEmpty then s!"File: {path}\n(No new content in this file)\n"
  else joinWith "\n" ([s!"File: {path}", rule] ++ lines.map (numberedLine added modified) ++ [rule])

namespace ChangedFile

variable (f : ChangedFile)

def text : String := listing f.path f.lines f.added f.modified

def changed (n : Int) : Bool := f.added.contains n || f.modified.contains n

def changedText (path : String) : String := listing path (f.lines.filter fun l => f.changed l.1) f.added f.modified

def lineAt? (n : Int) : Option String :=
  (f.lines.find? (·.1 == n)).map fun l =>
    String.ofList (Text.dropRightWhile (fun c => c == '\n' || c == '\r') l.2.toList)

end ChangedFile

/-- The changed file of a path: as it is, else under its normal form. -/
def findFile? : Option ChangedFile :=
  match Fields.get? files path with
  | some f => some f
  | none =>
    let normal := normalPath path
    match Fields.get? files normal with
    | some f => some f
    | none => (files.find? fun (p, _) => normalPath p == normal).map (·.2)

/-!
## Excerpts of a diff

What a diff says about one file: its numbered lines, else the raw section that names it, else the start of the diff.
-/

open Text

/-- Characters from here to the first place where a mark stands, or to the end. -/
def upTo (mark : Chars) (s : Chars) : Chars :=
  match breakOn? mark s with
  | some (before, _) => before
  | none => s

/-- Characters through the first line end; none when there is no line end. -/
def throughLine? (s : Chars) : Option (Chars × Chars) :=
  (breakOn? ['\n'] s).map fun (before, rest) => (before ++ ['\n'], rest)

/-- The last place where a name stands with a line end after it: what is before it and what follows. -/
def lastNamed? (name : Chars) : Chars → Option (Chars × Chars)
  | [] => none
  | c :: s =>
    match lastNamed? name s with
    | some (before, rest) => some (c :: before, rest)
    | none =>
      match dropLead? name (c :: s) with
      | some rest => if rest.contains '\n' then some ([], rest) else none
      | none => none

def headerMark : Chars := "diff --git".toList

/-- Characters through the line of the last mention of a name, and on to the next file header. -/
def throughLast? (name s : Chars) : Option Chars := do
  let (before, rest) ← lastNamed? name s
  let (line, rest) ← throughLine? rest
  return before ++ name ++ line ++ upTo ('\n' :: headerMark) rest

variable (diff name : Chars)

/-- The section from the first file header through the last mention of a name, and on to the next header. -/
def headerSection? : Option Chars := do
  let (_, rest) ← breakOn? headerMark diff
  return headerMark ++ (← throughLast? name rest)

/-- The section from the old side's line of a name to the next such line. -/
def sideSection? : Option Chars := do
  let head := "--- a/".toList ++ name
  let (_, rest) ← breakOn? head diff
  let (line, rest) ← throughLine? rest
  return head ++ line ++ upTo "\n--- a/".toList rest

def excerptLimit : Nat := 3000

def rawSection (diff path : String) : String :=
  let d := diff.toList
  match headerSection? d path.toList <|> sideSection? d path.toList with
  | some s => String.ofList s
  | none => takeChars excerptLimit diff

def excerptBy (parse : String → Result (List FileDiff)) (diff path : String) : String :=
  match (changedFilesBy parse diff).toOption.bind (findFile? · path) with
  | some f => f.text
  | none => rawSection diff path

def excerpt (diff path : String) : String := excerptBy parse diff path

end PatchReview.Diff
