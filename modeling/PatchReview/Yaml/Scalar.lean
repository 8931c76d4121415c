import PatchReview.Encoding.Utf8
import PatchReview.Number.Real
import PatchReview.Text.Naming

/-!
# Scanning single tokens

Directives, anchors, tags and scalars: each is scanned from its first character on.
-/

/-!
## Places in a document

A document is scanned from front to back. A mark says where the scan stands; errors carry the marks of what was being
read and of what is wrong.
-/

namespace PatchReview.Yaml

open Char

structure Mark where
  index : Nat := 0
  line : Nat := 0
  column : Nat := 0
  deriving Inhabited

inductive Error where
  /-- Something is wrong at a place, maybe while something that started at another place was being read. -/
  | marked (context : Option String) (start : Option Mark) (problem : String) (place : Mark)
  | character (code position : Nat)
  | value (reason : String)

/-- A mark in a document of a name; lines and columns are shown from 1 on. -/
def Mark.display (m : Mark) (name : String) : String := s!"  in \"{name}\", line {m.line + 1}, column {m.column + 1}"

def Error.message (name : String) : Error → String
  | marked context start problem place =>
    let elsewhere := start.filter fun m => m.line != place.line || m.column != place.column
    joinWith "\n" (context.toList ++ (elsewhere.map (·.display name)).toList ++ [problem, place.display name])
  | character code position =>
    let digits := Nat.toDigits 16 code
    let shown := String.ofList (List.replicate (4 - digits.length) '0' ++ digits)
    s!"unacceptable character #x{shown}: special characters are not allowed\n  in \"{name}\", position {position}"
  | value reason => reason

def ending : Char := ofNat 0

variable (c : Char)

def isBreak : Bool := c == '\n' || c == '\r' || c == ofNat 0x85 || c == ofNat 0x2028 || c == ofNat 0x2029

def isLineEnd : Bool := c == ending || isBreak c

def isGap : Bool := c == ' ' || isLineEnd c

def isWhite : Bool := c == '\t' || isGap c

def isWordChar : Bool := c.isAlphanum || c == '-' || c == '_'

def isAcceptable : Bool :=
  let n := c.toNat
  n == 9 || n == 10 || n == 13 || n == 0x85 || (0x20 ≤ n && n ≤ 0x7E) || (0xA0 ≤ n && n ≤ 0xD7FF)
    || (0xE000 ≤ n && n ≤ 0xFFFD) || 0x10000 ≤ n

def unacceptable? : Nat → Chars → Option Error
  | _, [] => none
  | i, c :: cs => if isAcceptable c then unacceptable? (i + 1) cs else some (.character c.toNat i)

structure Cursor where
  rest : Chars
  mark : Mark := {}

namespace Cursor

def peekAt (c : Cursor) (n : Nat) : Char := (c.rest.drop n).headD ending

def peek (c : Cursor) : Char := c.rest.headD ending

/-- The mark after a character; a byte order mark takes no column. -/
def markAfter (m : Mark) (c : Char) (next : Char) : Mark :=
  if c == '\r' && next == '\n' then ⟨m.index + 1, m.line, m.column + 1⟩
  else if isBreak c then ⟨m.index + 1, m.line + 1, 0⟩
  else ⟨m.index + 1, m.line, if c == ofNat 0xFEFF then m.column else m.column + 1⟩

def forward : Nat → Cursor → Cursor
  | 0, c => c
  | n + 1, c =>
    match c.rest with
    | [] => c
    | ch :: rest => forward n ⟨rest, markAfter c.mark ch (rest.headD ending)⟩

end Cursor

abbrev Scan := StateT Cursor (Except Error)

namespace Scan

def peek : Scan Char := return (← get).peek

def peekAt (n : Nat) : Scan Char := return (← get).peekAt n

def mark : Scan Mark := return (← get).mark

def forward (n : Nat) : Scan Unit := modify (Cursor.forward n)

def takeWhile (p : Char → Bool) : Scan Chars := do
  let cs := (← get).rest.takeWhile p
  forward cs.length
  return cs

def skipWhile (p : Char → Bool) : Scan Unit := do
  let _ ← takeWhile p

/-- Fails here, while something that started at a mark was being read. -/
def fail {α : Type} (context : String) (start : Mark) (problem : String) : Scan α := do
  throw (.marked (some context) (some start) problem (← mark))

def left : Scan Nat := return (← get).rest.length

/-- Goes over a line break: what it stands for, nothing when there is none. -/
def lineBreak : Scan Chars := do
  let c ← peek
  if c == '\r' && (← peekAt 1) == '\n' then
    forward 2
    return ['\n']
  else if c == '\r' || c == '\n' || c == ofNat 0x85 then
    forward 1
    return ['\n']
  else if isBreak c then
    forward 1
    return [c]
  else return []

def atSeparator : Scan Bool := do
  let front := (← get).rest.take 3
  return (front == ['-', '-', '-'] || front == ['.', '.', '.']) && isWhite (← peekAt 3)

end Scan

def shown : String := quoted (String.singleton c)

/-!
## Tokens of a document

What the scanner hands to the parser.
-/

inductive Directive where
  | version (major minor : Nat)
  | tag (handle lead : String)
  | other
  deriving DecidableEq

inductive TokenKind where
  | streamEnd
  | directive (d : Directive)
  | documentStart
  | documentEnd
  | blockSequenceStart
  | blockMappingStart
  | blockEnd
  | flowSequenceStart
  | flowMappingStart
  | flowSequenceEnd
  | flowMappingEnd
  | flowEntry
  | blockEntry
  | key
  | value
  | alias (name : String)
  | anchor (name : String)
  | tag (handle : Option String) (suffix : String)
  | scalar (text : String) (plain : Bool)
  deriving DecidableEq

def TokenKind.name : TokenKind → String
  | streamEnd => "<stream end>"
  | directive _ => "<directive>"
  | documentStart => "<document start>"
  | documentEnd => "<document end>"
  | blockSequenceStart => "<block sequence start>"
  | blockMappingStart => "<block mapping start>"
  | blockEnd => "<block end>"
  | flowSequenceStart => "["
  | flowMappingStart => "\x7b"
  | flowSequenceEnd => "]"
  | flowMappingEnd => "\x7d"
  | flowEntry => ","
  | blockEntry => "-"
  | key => "?"
  | value => ":"
  | .alias _ => "<alias>"
  | anchor _ => "<anchor>"
  | tag _ _ => "<tag>"
  | scalar _ _ => "<scalar>"

structure Token where
  kind : TokenKind
  start : Mark
  stop : Mark

end PatchReview.Yaml

namespace PatchReview.Yaml.Scan

open Number String

def demand (p : Char → Bool) (context : String) (start : Mark) (what : String) : Scan Unit := do
  let c ← peek
  if !p c then fail context start s!"expected {what}, but found {shown c}"

def skipComment : Scan Unit := do
  if (← peek) == '#' then skipWhile fun c => !isLineEnd c

variable (start : Mark) (columns : Nat) (context name : String)

def restOfLine (start : Mark) : Scan Unit := do
  skipWhile (· == ' ')
  skipComment
  demand isLineEnd context start "a comment or a line break"
  let _ ← lineBreak

/-- Scans the name of a directive, an anchor or an alias, after which some characters may stand. -/
def word (start : Mark) (follows : Char → Bool) : Scan String := do
  let cs := (← get).rest.takeWhile isWordChar
  let demand (p : Char → Bool) : Scan Unit := demand p context start "alphabetic or numeric character"
  demand fun _ => !cs.isEmpty
  forward cs.length
  demand follows
  return ofList cs

/-! ## Directives and tags -/

def directiveContext := "while scanning a directive"

def versionNumber : Scan Nat := do
  demand Char.isDigit directiveContext start "a digit"
  let ds ← takeWhile Char.isDigit
  if digitLimit < ds.length then throw (.value (digitLimitText ds.length))
  return ofDigits (ds.map fun c => c.toNat - 48)

def version : Scan Directive := do
  skipWhile (· == ' ')
  let major ← versionNumber start
  demand (· == '.') directiveContext start "a digit or '.'"
  forward 1
  let minor ← versionNumber start
  demand isGap directiveContext start "a digit or ' '"
  return .version major minor

def tagHandle (start : Mark) : Scan String := do
  let demandMark : Scan Unit := demand (· == '!') s!"while scanning a {name}" start "'!'"
  demandMark
  if (← peekAt 1) == ' ' then
    forward 1
    return "!"
  let cs := ((← get).rest.drop 1).takeWhile isWordChar
  forward (1 + cs.length)
  demandMark
  forward 1
  return "!" ++ ofList cs ++ "!"

def isTagChar (c : Char) : Bool := c.isAlphanum || "-;/?:@&=+$,_.!~*()[]".toList.contains c || c == '\x27'

def tagEscapes (name : String) (start : Mark) : Nat → List UInt8 → Scan (List UInt8)
  | 0, acc => return acc
  | fuel + 1, acc => do
    if (← peek) != '%' then return acc
    forward 1
    let digits := [← peekAt 0, ← peekAt 1]
    match digits.find? (!Text.isHex ·) with
    | some c =>
      fail s!"while scanning a {name}" start
        s!"expected URI escape sequence of 2 hexadecimal numbers, but found {shown c}"
    | none =>
      forward 2
      tagEscapes name start fuel (acc ++ [UInt8.ofNat (Text.hexValue digits)])

def tagParts (name : String) (start : Mark) : Nat → Chars → Scan Chars
  | 0, acc => return acc
  | fuel + 1, acc => do
    let cs ← takeWhile isTagChar
    let acc := acc ++ cs
    if (← peek) != '%' then return acc
    let place ← mark
    let bytes ← tagEscapes name start (← left) []
    match Utf8.decode bytes with
    | .ok s => tagParts name start fuel (acc ++ s.toList)
    | .error e => throw (.marked (some s!"while scanning a {name}") (some start) e.message place)

def tagText (start : Mark) : Scan String := do
  demand (fun c => isTagChar c || c == '%') s!"while parsing a {name}" start "URI"
  return ofList (← tagParts name start ((← left) + 1) [])

def tagDirective : Scan Directive := do
  skipWhile (· == ' ')
  let handle ← tagHandle "directive" start
  demand (· == ' ') directiveContext start "' '"
  skipWhile (· == ' ')
  let lead ← tagText "directive" start
  demand isGap directiveContext start "' '"
  return .tag handle lead

def directive : Scan Token := do
  let start ← mark
  forward 1
  let name ← word directiveContext start isGap
  let d ← match name with
    | "YAML" => version start
    | "TAG" => tagDirective start
    | _ => pure .other
  let stop ← mark
  if d == .other then skipWhile fun c => !isLineEnd c
  restOfLine directiveContext start
  return ⟨.directive d, start, stop⟩

def reference : Scan Token := do
  let start ← mark
  let isAlias := (← peek) == '*'
  forward 1
  let follows (c : Char) := isWhite c || "?:,]\x7d%@`".toList.contains c
  let name ← word (if isAlias then "while scanning an alias" else "while scanning an anchor") start follows
  return ⟨if isAlias then .alias name else .anchor name, start, ← mark⟩

def tag : Scan Token := do
  let start ← mark
  let next ← peekAt 1
  let (handle, suffix) ← do
    if next == '<' then
      forward 2
      let suffix ← tagText "tag" start
      demand (· == '>') "while parsing a tag" start "'>'"
      forward 1
      pure (none, suffix)
    else if isWhite next then
      forward 1
      pure (none, "!")
    else
      let run := ((← get).rest.drop 1).takeWhile fun c => !isGap c
      let handle ← if run.contains '!' then tagHandle "tag" start else do
        forward 1
        pure "!"
      pure (some handle, ← tagText "tag" start)
  demand isGap "while scanning a tag" start "' '"
  return ⟨.tag handle suffix, start, ← mark⟩

/-! ## Scalars in blocks -/

def blockContext := "while scanning a block scalar"

def increment : Scan (Option Nat) := do
  let c ← peek
  if !c.isDigit then return none
  if c == '0' then
    fail blockContext start "expected indentation indicator in the range 1-9, but found 0"
  forward 1
  return some (c.toNat - 48)

/-- Scans what is done with the line breaks at the end: all are kept, or all dropped. -/
def chomping : Scan (Option Bool) := do
  let c ← peek
  if c == '+' || c == '-' then
    forward 1
    return some (c == '+')
  else return none

def blockIndicators : Scan (Option Bool × Option Nat) := do
  let first ← chomping
  let columns ← increment start
  let keep ← match first, columns with
    | none, some _ => chomping
    | k, _ => pure k
  demand isGap blockContext start "chomping or indentation indicators"
  return (keep, columns)

/-- Goes over the lines before a block: their breaks, the most columns of one, and the mark after the last break. -/
def leadingLines : Nat → Chars → Nat → Mark → Scan (Chars × Nat × Mark)
  | 0, breaks, columns, stop => return (breaks, columns, stop)
  | fuel + 1, breaks, columns, stop => do
    let c ← peek
    if c == ' ' then
      forward 1
      leadingLines fuel breaks (max columns (← mark).column) stop
    else if isBreak c then
      let b ← lineBreak
      leadingLines fuel (breaks ++ b) columns (← mark)
    else return (breaks, columns, stop)

def skipIndent : Scan Unit := do
  let here := (← mark).column
  let spaces := ((← get).rest.takeWhile (· == ' ')).length
  forward (min spaces (columns - here))

/-- Goes over line breaks and the indentations after them: the breaks, and the mark after the last one. -/
def innerBreaks : Nat → Chars → Mark → Scan (Chars × Mark)
  | 0, breaks, stop => return (breaks, stop)
  | fuel + 1, breaks, stop => do
    if !isBreak (← peek) then return (breaks, stop)
    let b ← lineBreak
    let stop ← mark
    skipIndent columns
    innerBreaks fuel (breaks ++ b) stop

def blockBreaks : Scan (Chars × Mark) := do
  let here ← mark
  skipIndent columns
  innerBreaks columns ((← left) + 1) [] here

def atBlockLine : Scan Bool := return (← mark).column == columns && (← peek) != ending

/-- Scans the lines of a block, of which the first starts here: the text, the last line break, the breaks after it,
and the mark behind them. -/
def blockLines (folded : Bool) (columns : Nat) : Nat → Chars → Chars → Chars → Mark →
    Scan (Chars × Chars × Chars × Mark)
  | 0, acc, last, breaks, stop => return (acc, last, breaks, stop)
  | fuel + 1, acc, last, breaks, stop => do
    if !(← atBlockLine columns) then return (acc, last, breaks, stop)
    let isText (c : Char) := c != ' ' && c != '\t'
    let text := isText (← peek)
    let line ← takeWhile fun c => !isLineEnd c
    let acc := acc ++ breaks ++ line
    let last ← lineBreak
    let (breaks, stop) ← blockBreaks columns
    if !(← atBlockLine columns) then return (acc, last, breaks, stop)
    let join := if folded && last == ['\n'] && text && isText (← peek) then
        if breaks.isEmpty then [' '] else []
      else last
    blockLines folded columns fuel (acc ++ join) last breaks stop

def blockScalar (folded : Bool) (indent : Int) : Scan Token := do
  let start ← mark
  forward 1
  let (keep, columns) ← blockIndicators start
  restOfLine blockContext start
  let least := max 1 (indent + 1).toNat
  let (columns, breaks, stop) ← match columns with
    | none => do
      let (breaks, most, stop) ← leadingLines ((← left) + 1) [] 0 (← mark)
      pure (max least most, breaks, stop)
    | some n => do
      let columns := least + n - 1
      let (breaks, stop) ← blockBreaks columns
      pure (columns, breaks, stop)
  let (text, last, breaks, stop) ← blockLines folded columns ((← left) + 1) [] [] breaks stop
  let text := if keep == some false then text else text ++ last
  let text := if keep == some true then text ++ breaks else text
  return ⟨.scalar (ofList text) false, start, stop⟩

/-! ## Quoted scalars -/

def escapes : List (Char × Nat) :=
  [('0', 0), ('a', 7), ('b', 8), ('t', 9), ('\t', 9), ('n', 10), ('v', 11), ('f', 12), ('r', 13), ('e', 27), (' ', 32),
    ('"', 34), ('\\', 92), ('/', 47), ('N', 0x85), ('_', 0xA0), ('L', 0x2028), ('P', 0x2029)]

def escapeDigits : List (Char × Nat) := [('x', 2), ('u', 4), ('U', 8)]

def quotedContext := "while scanning a quoted scalar"

def doubleContext := "while scanning a double-quoted scalar"

/-- What line breaks stand for, the first of which was read before the others: a single one for a space. -/
def folded (first breaks : Chars) : Chars :=
  if first != ['\n'] then first ++ breaks else if breaks.isEmpty then [' '] else breaks

def quotedBreaks : Nat → Chars → Scan Chars
  | 0, acc => return acc
  | fuel + 1, acc => do
    if ← atSeparator then fail quotedContext start "found unexpected document separator"
    skipWhile fun c => c == ' ' || c == '\t'
    if !isBreak (← peek) then return acc
    let b ← lineBreak
    quotedBreaks fuel (acc ++ b)

def escape : Scan Chars := do
  let c ← peek
  match escapes.lookup c, escapeDigits.lookup c with
  | some n, _ =>
    forward 1
    return [Char.ofNat n]
  | none, some width =>
    forward 1
    let digits := (← get).rest.take width
    let good := (digits.takeWhile Text.isHex).length
    if good < width then
      fail doubleContext start
        s!"expected escape sequence of {width} hexadecimal numbers, but found {shown (← peekAt good)}"
    let n := Text.hexValue digits
    if 0x7FFFFFFF < n then throw (.value "Python int too large to convert to C int")
    if 0x10FFFF < n then throw (.value "chr() arg not in range(0x110000)")
    forward width
    return [Char.ofNat n]
  | none, none =>
    if isBreak c then
      let _ ← lineBreak
      quotedBreaks start ((← left) + 1) []
    else fail doubleContext start s!"found unknown escape character {shown c}"

def quotedWord (double : Bool) (start : Mark) : Nat → Chars → Scan Chars
  | 0, acc => return acc
  | fuel + 1, acc => do
    let cs ← takeWhile fun c => !isWhite c && c != '\x27' && c != '"' && c != '\\'
    let acc := acc ++ cs
    let c ← peek
    let paired := !double && c == '\x27' && (← peekAt 1) == '\x27'
    if double && c == '\\' then
      forward 1
      let e ← escape start
      quotedWord double start fuel (acc ++ e)
    else if paired || (double && c == '\x27') || (!double && (c == '"' || c == '\\')) then
      forward (if paired then 2 else 1)
      quotedWord double start fuel (acc ++ [c])
    else return acc

def quotedSpaces : Scan Chars := do
  let spaces ← takeWhile fun c => c == ' ' || c == '\t'
  let c ← peek
  if c == ending then fail quotedContext start "found unexpected end of stream"
  if !isBreak c then return spaces
  let first ← lineBreak
  return folded first (← quotedBreaks start ((← left) + 1) [])

def quotedParts (quote : Char) (start : Mark) : Nat → Chars → Scan Chars
  | 0, acc => return acc
  | fuel + 1, acc => do
    if (← peek) == quote then return acc
    let spaces ← quotedSpaces start
    let cs ← quotedWord (quote == '"') start ((← left) + 1) []
    quotedParts quote start fuel (acc ++ spaces ++ cs)

def quotedScalar : Scan Token := do
  let start ← mark
  let quote ← peek
  forward 1
  let front ← quotedWord (quote == '"') start ((← left) + 1) []
  let text ← quotedParts quote start ((← left) + 1) front
  forward 1
  return ⟨.scalar (ofList text) false, start, ← mark⟩

/-! ## Plain scalars -/

/-- The characters of a plain scalar up to white space or an indicator. -/
def plainRun (flow : Bool) : Chars → Chars
  | [] => []
  | c :: cs =>
    let next := cs.headD ending
    let isFlow (c : Char) := flow && [',', '[', ']', '\x7b', '\x7d'].contains c
    if isWhite c || isFlow c || (flow && c == '?') || (c == ':' && (isWhite next || isFlow next)) then []
    else c :: plainRun flow cs

/-- Goes over the lines between two words of a plain scalar: their breaks, or none at a separator of documents. -/
def plainBreaks : Nat → Chars → Scan (Option Chars)
  | 0, acc => return some acc
  | fuel + 1, acc => do
    let c ← peek
    if c == ' ' then
      forward 1
      plainBreaks fuel acc
    else if isBreak c then
      let b ← lineBreak
      if ← atSeparator then return none
      plainBreaks fuel (acc ++ b)
    else return some acc

/-- Scans the white space after a word of a plain scalar: what stands for it, and whether a line ended. -/
def plainSpaces : Scan (Chars × Bool) := do
  let spaces ← takeWhile (· == ' ')
  if !isBreak (← peek) then return (spaces, false)
  let first ← lineBreak
  if ← atSeparator then return ([], true)
  match ← plainBreaks ((← left) + 1) [] with
  | none => return ([], true)
  | some breaks => return (folded first breaks, true)

/-- Scans the words of a plain scalar: the text, the mark after it, and whether a line ended behind it. -/
def plainWords (flow : Bool) (indent : Int) : Nat → Chars → Chars → Mark → Bool → Scan (Chars × Mark × Bool)
  | 0, acc, _, stop, ended => return (acc, stop, ended)
  | fuel + 1, acc, spaces, stop, ended => do
    if (← peek) == '#' then return (acc, stop, ended)
    let run := plainRun flow (← get).rest
    if run.isEmpty then return (acc, stop, ended)
    forward run.length
    let stop ← mark
    let acc := acc ++ spaces ++ run
    let (spaces, ended) ← plainSpaces
    if spaces.isEmpty || (← peek) == '#' || (!flow && ((← mark).column : Int) < indent) then
      return (acc, stop, ended)
    plainWords flow indent fuel acc spaces stop ended

/-- Scans a plain scalar inside an indentation: the token, and whether a line ended behind it. -/
def plainScalar (flow : Bool) (indent : Int) : Scan (Token × Bool) := do
  let start ← mark
  let (text, stop, ended) ← plainWords flow (indent + 1) ((← left) + 1) [] [] start false
  return (⟨.scalar (ofList text) true, start, stop⟩, ended)

end PatchReview.Yaml.Scan
