import PatchReview.Number.Real
import PatchReview.Text.Naming

/-!
# Reading regular expressions

A reader goes through an expression token by token, a token being a character or a backslash with the character after
it. What it refuses it names with its position.
-/

namespace PatchReview.Pattern

/-!
## Matching regular expressions

Matching is a search: an expression is tried at a place, and what it leaves is handed on to the rest of the match,
which may send it back to try its next way. A repetition goes on only as long as it moves forward.
-/

/-!
## Regular expressions

A regular expression as a tree. Every leaf carries the switches that hold where it stands.
-/

structure Switches where
  ignoreCase : Bool := false
  multiline : Bool := false
  dotAll : Bool := false
  verbose : Bool := false
  ascii : Bool := false

inductive CharClass where
  | digit
  | blank
  | word

def isAsciiBlank (c : Char) : Bool := [9, 10, 11, 12, 13, 32].contains c.toNat

def CharClass.has (ascii : Bool) (k : CharClass) (c : Char) : Bool :=
  let inside := match k with
    | digit => Text.isDecimal c
    | blank => Text.isBlank c
    | word => Text.isWord c
  if ascii then
    match k with
    | blank => isAsciiBlank c
    | _ => inside && c.toNat < 128
  else inside

inductive SetPart where
  | char (c : Nat)
  | range (lo hi : Nat)
  | kind (k : CharClass) (negated : Bool)

inductive Anchor where
  | lineStart
  | lineEnd
  | textStart
  | textEnd
  | boundary
  | inside

inductive Appetite where
  | greedy
  | lazy
  | possessive

inductive Regex where
  | empty
  | set (negated : Bool) (parts : List SetPart) (s : Switches)
  | any (s : Switches)
  | anchor (a : Anchor) (s : Switches)
  | seq (a b : Regex)
  | alt (a b : Regex)
  | rep (least : Nat) (most : Option Nat) (appetite : Appetite) (body : Regex)
  | group (number : Nat) (body : Regex)
  /-- The text of an earlier group, whose shortest and longest lengths are known. -/
  | backref (number : Nat) (least : Nat) (most : Option Nat) (s : Switches)
  /-- What follows matches, or does not. -/
  | ahead (positive : Bool) (body : Regex)
  /-- What stands before matches, or does not. -/
  | behind (positive : Bool) (body : Regex)
  | atomic (body : Regex)
  | cond (number : Nat) (yes no : Regex)

namespace Regex

def char (c : Char) (s : Switches) : Regex := .set false [.char c.toNat] s

def sequence : List Regex → Regex
  | [] => .empty
  | [r] => r
  | r :: rs => .seq r (sequence rs)

def literal (text : String) (s : Switches) : Regex := sequence (text.toList.map fun c => char c s)

def maxBound : Option Nat → Option Nat → Option Nat
  | some a, some b => some (max a b)
  | _, _ => none

def width : Regex → Nat × Option Nat
  | .empty | .anchor .. | .ahead .. | .behind .. => (0, some 0)
  | .set .. | .any .. => (1, some 1)
  | .seq a b =>
    let (x, y) := a.width
    let (z, w) := b.width
    (x + z, do return (← y) + (← w))
  | .alt a b =>
    let (x, y) := a.width
    let (z, w) := b.width
    (min x z, maxBound y w)
  | .rep least most _ body =>
    let (x, y) := body.width
    (x * least, match y, most with
      | some 0, _ => some 0
      | some n, some m => some (n * m)
      | _, _ => none)
  | .group _ body | .atomic body => body.width
  | .backref _ least most _ => (least, most)
  | .cond _ yes no =>
    let (x, y) := yes.width
    let (z, w) := no.width
    (min x z, maxBound y w)

/-- Whether all texts that must stand before have one length. -/
def steadyBehind : Regex → Bool
  | .behind _ body => body.width.2 == some body.width.1 && body.steadyBehind
  | .seq a b | .alt a b | .cond _ a b => a.steadyBehind && b.steadyBehind
  | .rep _ _ _ body | .group _ body | .atomic body | .ahead _ body => body.steadyBehind
  | _ => true

end Regex

open Text

/-- A place in a text, with the groups matched on the way to it. -/
structure Spot where
  /-- The text before the place, backwards. -/
  before : Chars
  rest : Chars
  groups : List (Nat × Chars) := []

namespace Spot

variable (p : Spot)

def offset : Nat := p.before.length

def since (start : Nat) : Chars := (p.before.take (p.offset - start)).reverse

def back (n : Nat) : Option Spot :=
  if n ≤ p.before.length then
    some { p with before := p.before.drop n, rest := (p.before.take n).reverse ++ p.rest }
  else none

def step (ok : Char → Bool) : Option Spot :=
  match p.rest with
  | c :: rest => if ok c then some { p with before := c :: p.before, rest } else none
  | [] => none

def steps (p : Spot) (same : Char → Char → Bool) : Chars → Option Spot
  | [] => some p
  | c :: cs =>
    match p.step (same c) with
    | some q => q.steps same cs
    | none => none

end Spot

def SetPart.has (s : Switches) (part : SetPart) (c : Char) : Bool :=
  let codes := if s.ignoreCase then variantsOf (smallLetter c).toNat else [c.toNat]
  match part with
  | .char n => if s.ignoreCase then codes.contains (smallLetter (Char.ofNat n)).toNat else c.toNat == n
  | .range lo hi =>
    if s.ignoreCase then
      let inside (d : Char) := lo ≤ d.toNat && d.toNat ≤ hi
      inside c || codes.any fun n =>
        inside (Char.ofNat n) || (uppered (String.singleton (Char.ofNat n))).toList.any inside
    else lo ≤ c.toNat && c.toNat ≤ hi
  | .kind k negated => k.has s.ascii c != negated

def Anchor.at? (a : Anchor) (s : Switches) (p : Spot) : Bool :=
  let word (c : Option Char) := match c with
    | some c => CharClass.word.has s.ascii c
    | none => false
  let edge := word p.before.head? != word p.rest.head?
  match a with
  | lineStart => p.before.isEmpty || (s.multiline && p.before.head? == some '\n')
  | lineEnd => p.rest.isEmpty || p.rest == ['\n'] || (s.multiline && p.rest.head? == some '\n')
  | textStart => p.before.isEmpty
  | textEnd => p.rest.isEmpty
  | boundary => edge
  | inside => !edge && !(p.before.isEmpty && p.rest.isEmpty)

abbrev Onward := Spot → Option Spot

variable (body : Spot → Onward → Option Spot) (least : Nat) (most : Option Nat) (appetite : Appetite) in
/-- Repeats a matcher. `count` repetitions have been made, and the last one began at `last`. -/
def repeatMatch : Nat → Nat → Option Nat → Spot → Onward → Option Spot
  | 0, _, _, p, k => k p
  | fuel + 1, count, last, p, k =>
    let more (_ : Unit) : Option Spot :=
      if most.all (count < ·) && last != some p.offset then
        body p fun q => repeatMatch fuel (count + 1) (some p.offset) q k
      else none
    if count < least then
      body p fun q => repeatMatch fuel (count + 1) none q k
    else match appetite with
      | .lazy => k p <|> more ()
      | _ => more () <|> k p

/-- Matches an expression at a place and goes on from where it ends. -/
def Regex.go : Regex → Spot → Onward → Option Spot
  | .empty, p, k => k p
  | .set negated parts s, p, k =>
    match p.step fun c => (parts.any fun part => part.has s c) != negated with
    | some q => k q
    | none => none
  | .any s, p, k =>
    match p.step fun c => s.dotAll || c != '\n' with
    | some q => k q
    | none => none
  | .anchor a s, p, k => if a.at? s p then k p else none
  | .seq a b, p, k => a.go p fun q => b.go q k
  | .alt a b, p, k => a.go p k <|> b.go p k
  | .rep least most .possessive body, p, k =>
    match repeatMatch body.go least most .greedy (least + p.rest.length + 2) 0 none p some with
    | some q => k q
    | none => none
  | .rep least most appetite body, p, k =>
    repeatMatch body.go least most appetite (least + p.rest.length + 2) 0 none p k
  | .group n body, p, k => body.go p fun q => k { q with groups := (n, q.since p.offset) :: q.groups }
  | .backref n _ _ s, p, k =>
    match p.groups.lookup n with
    | none => none
    | some text =>
      match p.steps (fun a b => if s.ignoreCase then smallLetter a == smallLetter b
        else a == b) text with
      | some q => k q
      | none => none
  | .ahead positive body, p, k =>
    match body.go p some with
    | some q => if positive then k { p with groups := q.groups } else none
    | none => if positive then none else k p
  | .behind positive body, p, k =>
    match p.back body.width.1 with
    | none => if positive then none else k p
    | some b =>
      match body.go b some with
      | some q => if positive then k { p with groups := q.groups } else none
      | none => if positive then none else k p
  | .atomic body, p, k =>
    match body.go p some with
    | some q => k q
    | none => none
  | .cond n yes no, p, k => if (p.groups.lookup n).isSome then yes.go p k else no.go p k

structure Match where
  start : Nat
  text : Chars
  groups : List (Nat × Chars)

def Match.group? (m : Match) (n : Nat) : Option String := (m.groups.lookup n).map String.ofList

namespace Regex

variable (r : Regex) (text : String)

def matchTo (ends : Spot → Bool) (p : Spot) : Option (Match × Spot) :=
  (r.go { p with groups := [] } fun q => if ends q then some q else none).map fun q =>
    (⟨p.offset, q.since p.offset, q.groups⟩, q)

def matchAt (p : Spot) : Option (Match × Spot) := r.matchTo (fun _ => true) p

def moveAt (p : Spot) : Option (Match × Spot) := r.matchTo (p.offset < ·.offset) p

def searchFrom : Chars → Chars → Option (Match × Spot)
  | before, [] => r.matchAt { before, rest := [] }
  | before, c :: cs =>
    match r.matchAt { before, rest := c :: cs } with
    | some m => some m
    | none => searchFrom (c :: before) cs

def search? : Option Match := (r.searchFrom [] text.toList).map Prod.fst

def found : Bool := (r.search? text).isSome

/-- The first match after an earlier one that ended here; after an empty one it has to move on. -/
def searchAfter (afterEmpty : Bool) (before : Chars) (rest : Chars) : Option (Match × Spot) :=
  if afterEmpty then
    match r.moveAt { before, rest } with
    | some m => some m
    | none =>
      match rest with
      | [] => none
      | c :: cs => r.searchFrom (c :: before) cs
  else r.searchFrom before rest

def matchesFrom : Nat → Bool → Chars → Chars → List Match
  | 0, _, _, _ => []
  | fuel + 1, afterEmpty, before, rest =>
    match r.searchAfter afterEmpty before rest with
    | none => []
    | some (m, q) => m :: matchesFrom fuel m.text.isEmpty q.before q.rest

def allMatches : List Match :=
  let cs := text.toList
  r.matchesFrom (2 * cs.length + 2) false [] cs

def replaceAll (image : Match → String) (text : String) : String :=
  let cs := text.toList
  let (out, last) := (r.allMatches text).foldl (fun (acc : Chars × Nat) m =>
    (acc.1 ++ (cs.drop acc.2).take (m.start - acc.2) ++ (image m).toList, m.start + m.text.length))
    ([], 0)
  String.ofList (out ++ cs.drop last)

end Regex

open String Text

structure RegexError where
  reason : String
  position : Option Nat := none
  /-- Whether a number in the expression is too large to count with. -/
  isExcess : Bool := false

/-- The message of an error in an expression; the place is also given by line and column when the expression has
several lines. -/
def RegexError.message (e : RegexError) (pattern : String) : String :=
  match e.position with
  | none => e.reason
  | some n =>
    let before := pattern.toList.take n
    let line := before.count '\n' + 1
    let column := (before.reverse.takeWhile (· != '\n')).length + 1
    let place := s!"{e.reason} at position {n}"
    if pattern.toList.contains '\n' then s!"{place} (line {line}, column {column})" else place

structure Reading where
  next : Option Chars
  rest : Chars
  index : Nat
  groups : Nat := 1
  widths : List (Nat × Nat × Option Nat) := []
  names : List (String × Nat) := []
  switches : Switches := {}
  /-- The first group inside a look behind that is being read. -/
  behindFrom : Option Nat := none
  /-- Groups that conditions name by number, with their positions. -/
  conditions : List (Nat × Nat) := []

abbrev Read := StateT Reading (Except RegexError)

namespace Read

def failAt {α : Type} (reason : String) (place : Nat) : Read α := throw { reason, position := some place }

def tell : Read Nat := do
  let r ← get
  return r.index - (r.next.getD []).length

/-- Gives up, `back` characters before the next token. -/
def refuse {α : Type} (reason : String) (back : Nat) : Read α := do
  failAt reason ((← tell) - back)

/-- More than the tokens that are left. -/
def size : Read Nat := return (← get).rest.length + 2

def advance : Read Unit := do
  let r ← get
  match r.rest with
  | [] => set { r with next := none }
  | ['\\'] => failAt "bad escape (end of pattern)" r.index
  | '\\' :: c :: rest => set { r with next := some ['\\', c], rest, index := r.index + 2 }
  | c :: rest => set { r with next := some [c], rest, index := r.index + 1 }

def take : Read (Option Chars) := do
  let t := (← get).next
  if t.isSome then advance
  return t

def demand (missing : String) : Read Chars := do
  let some t ← take | refuse missing 0
  return t

def accept (c : Char) : Read Bool := do
  let found := (← get).next == some [c]
  if found then advance
  return found

def takeWhile (p : Char → Bool) : Nat → Read Chars
  | 0 => return []
  | n + 1 => do
    let some [c] := (← get).next | return []
    if !p c then return []
    advance
    return c :: (← takeWhile p n)

def takeName (stop : Char) (what : String) : Nat → Chars → Read Chars
  | 0, acc => return acc
  | fuel + 1, acc => do
    let missing {α : Type} : Nat → Read α := refuse s!"missing {what}"
    match ← take with
    | none => if acc.isEmpty then missing 0 else refuse s!"missing {stop}, unterminated name" acc.length
    | some t =>
      if t != [stop] then takeName stop what fuel (acc ++ t)
      else if acc.isEmpty then missing 1
      else return acc

end Read

def escapedClass? (c : Char) : Option SetPart :=
  ([('d', CharClass.digit), ('s', .blank), ('w', .word)].lookup c.toLower).map fun k => .kind k c.isUpper

def escapedAnchor? (c : Char) : Option Anchor :=
  [('A', Anchor.textStart), ('b', .boundary), ('B', .inside), ('Z', .textEnd)].lookup c

namespace Read

variable (c : Char) (s : Switches) (start : Nat)

def hexEscape (count : Nat) : Read Nat := do
  let ds ← takeWhile isHex count
  let whole := ofList ('\\' :: c :: ds)
  if ds.length != count then refuse s!"incomplete escape {whole}" whole.length
  let n := hexValue ds
  if 0x10FFFF < n then refuse s!"bad escape {whole}" whole.length
  return n

def namedEscape : Read Nat := do
  if !(← accept '\x7b') then refuse "missing \x7b" 0
  let name ← takeName '\x7d' "character name" (← size) []
  let some c := named? name
    | refuse s!"undefined character name {quoted (String.ofList name)}" (name.length + 4)
  return c.toNat

def commonEscape? : Read (Option Nat) := do
  if c == 'N' then return some (← namedEscape)
  match [('x', 2), ('u', 4), ('U', 8)].lookup c with
  | some count => return some (← hexEscape c count)
  | none => return none

def octal (ds : Chars) : Read Nat := do
  let n := valueIn 8 ds
  let whole := ofList ('\\' :: ds)
  if 0o377 < n then refuse s!"octal escape value {whole} outside of range 0-0o377" whole.length
  return n

/-- A character that stands for itself after a backslash, which no letter and no digit does. -/
def plainEscape : Read Nat := do
  if c.isAlphanum then refuse ("bad escape \\" ++ singleton c) 2
  return c.toNat

def setEscape : Read SetPart := do
  if let some d := escapedLetter? c then return .char d.toNat
  if let some k := escapedClass? c then return k
  if let some n ← commonEscape? c then return .char n
  return .char (← if isOctal c then do octal (c :: (← takeWhile isOctal 2)) else plainEscape c)

/-- A reference to a group must not point into what is being read. -/
def checkBehind (n : Nat) : Read Unit := do
  let r ← get
  if let some first := r.behindFrom then
    if (r.widths.lookup n).isNone then refuse "cannot refer to an open group" 0
    if first ≤ n then
      refuse "cannot refer to group defined in the same lookbehind subpattern" 0

def backref (n back : Nat) (s : Switches) : Read Regex := do
  let some (least, most) := (← get).widths.lookup n | refuse "cannot refer to an open group" back
  checkBehind n
  return .backref n least most s

/-- An escape that begins with a digit other than zero: a character by three octal digits, or a group. -/
def digitEscape : Read Regex := do
  let ds := c :: (← takeWhile Char.isDigit 1)
  if ds.length == 2 && ds.all isOctal then
    let third ← takeWhile isOctal 1
    if !third.isEmpty then return .set false [.char (← octal (ds ++ third))] s
  let n := valueIn 10 ds
  if n < (← get).groups then backref n (ds.length + 1) s
  else refuse s!"invalid group reference {n}" ds.length

def escape : Read Regex := do
  if let some a := escapedAnchor? c then return .anchor a s
  if let some k := escapedClass? c then return .set false [k] s
  if c.isDigit && c != '0' then return ← digitEscape c s
  if let some d := escapedLetter? c then return .char d s
  if let some n ← commonEscape? c then return .set false [.char n] s
  let n ← if c == '0' then do octal (← takeWhile isOctal 2) else plainEscape c
  return .set false [.char n] s

def setMember : Chars → Read SetPart
  | ['\\', c] => setEscape c
  | t => return .char (t.headD '\x00').toNat

/-- The inside of brackets that opened at a position, up to the closing one. -/
def setParts : Nat → List SetPart → Read (List SetPart)
  | 0, acc => return acc
  | fuel + 1, acc => do
    let some t ← take | failAt "unterminated character set" start
    if t == [']'] && !acc.isEmpty then return acc
    let low ← setMember t
    if !(← accept '-') then return ← setParts fuel (acc ++ [low])
    let some u ← take | failAt "unterminated character set" start
    if u == [']'] then return acc ++ [low, .char 45]
    if let (.char lo, .char hi) := (low, ← setMember u) then
      if lo ≤ hi then return ← setParts fuel (acc ++ [.range lo hi])
    let range := ofList (t ++ '-' :: u)
    refuse s!"bad character range {range}" range.length

/-- The bounds of a repetition in braces; none when the brace stands for itself. -/
def bounds : Read (Option (Nat × Option Nat)) := do
  let saved ← get
  if saved.next == some ['\x7d'] then return none
  let lo ← takeWhile Char.isDigit (← size)
  let hi ← if ← accept ',' then do takeWhile Char.isDigit (← size) else pure lo
  if !(← accept '\x7d') then
    set saved
    return none
  let least := valueIn 10 lo
  let most := valueIn 10 hi
  if 4294967295 ≤ max least most then throw { reason := "the repetition number is too large", isExcess := true }
  if hi.isEmpty then return some (least, none)
  if most < least then failAt "min repeat greater than max repeat" start
  return some (least, some most)

def appetite : Read Appetite := do
  if ← accept '?' then return .lazy
  if ← accept '+' then return .possessive
  return .greedy

def repeatLast (items : List Regex) (least : Nat) (most : Option Nat) (start : Nat) : Read (List Regex) := do
  match items.getLast? with
  | none | some (.anchor ..) => failAt "nothing to repeat" start
  | some (.rep ..) => failAt "multiple repeat" start
  | some item => return items.dropLast ++ [.rep least most (← appetite) item]

def isSwitch : Bool := "iLmsxatu".toList.contains c

def turn (on : Bool) (s : Switches) (c : Char) : Switches :=
  match c with
  | 'i' => { s with ignoreCase := on }
  | 'm' => { s with multiline := on }
  | 's' => { s with dotAll := on }
  | 'x' => { s with verbose := on }
  | 'a' => { s with ascii := on }
  | 'u' => { s with ascii := false }
  | _ => s

/-- Takes a switch, or a mark that may stand in its place. -/
def switchOr (marks missing : String) : Read Char := do
  let t ← demand missing
  if let [c] := t then
    if isSwitch c || marks.toList.contains c then return c
    if isAlphanumeric c && !isDigitLike c then refuse "unknown flag" 1
  refuse missing t.length

/-- Switches from a first one up to the mark that ends them; `check` sees each with those before it. -/
def switchesFrom (marks missing : String) (check : Chars → Char → Read Unit) : Nat → Char → Chars → Read (Chars × Char)
  | 0, c, acc => return (acc, c)
  | fuel + 1, c, acc => do
    check acc c
    let d ← switchOr marks missing
    if isSwitch d then switchesFrom marks missing check fuel d (acc ++ [c]) else return (acc ++ [c], d)

/-- The switches of a group from their first letter: those for the whole expression, given at once, or those that
hold inside the group. -/
def groupSwitches : Read (Option Switches) := do
  let flaw {α : Type} (reason : String) : Nat → Read α := refuse s!"bad inline flags: {reason}"
  let (on, stop) ← if c == '-' then pure ([], c) else do
    switchesFrom ")-:" "missing -, : or )" (fun acc c => do
      if c == 'L' then flaw "cannot use 'L' flag with a str pattern" 0
      if (c :: acc).contains 'a' && (c :: acc).contains 'u' then
        flaw "flags 'a', 'u' and 'L' are incompatible" 0) (← size) c []
  if stop == ')' then
    modify fun r => { r with switches := on.foldl (turn true) r.switches }
    return none
  if on.contains 't' then flaw "cannot turn on global flag" 1
  let (off, _) ← if stop != '-' then pure ([], stop) else do
    switchesFrom ":" "missing :" (fun _ c => do
      if "auL".toList.contains c then flaw "cannot turn off flags 'a', 'u' and 'L'" 0)
      (← size) (← switchOr "" "missing flag") []
  if off.contains 't' then flaw "cannot turn off global flag" 1
  if on.any off.contains then flaw "flag turned on and off" 1
  return some (off.foldl (turn false) (on.foldl (turn true) s))

def openGroup (name : Option String) : Read Nat := do
  let r ← get
  let number := r.groups
  for n in name do
    for old in r.names.lookup n do
      refuse s!"redefinition of group name {quoted n} as group {number}; was group {old}" (n.length + 1)
  set { r with groups := number + 1, names := (name.map (·, number)).toList ++ r.names }
  return number

def closeGroup (number : Nat) (body : Regex) : Read Unit :=
  modify fun r => { r with widths := (number, body.width) :: r.widths }

def refuseName {α : Type} (reason name : String) : Read α := refuse s!"{reason} {quoted name}" (name.length + 1)

def groupName (stop : Char) : Read String := do
  let name ← takeName stop "group name" (← size) []
  if !isIdentifier name then refuseName "bad character in group name" (ofList name)
  return ofList name

def numberOf (name : String) : Read Nat := do
  let some n := (← get).names.lookup name | refuseName "unknown group name" name
  return n

def conditionGroup : Read Nat := do
  let chars ← takeName ')' "group name" (← size) []
  let name := ofList chars
  if isIdentifier chars then return ← numberOf name
  let some (.ofNat n) := Number.readInt? name | refuseName "bad character in group name" name
  let back := name.length + 1
  if n == 0 then refuse "bad group number" back
  if 1073741823 ≤ n then refuse s!"invalid group reference {n}" back
  let place ← tell
  modify fun r => if (r.conditions.lookup n).isSome then r
    else { r with conditions := r.conditions ++ [(n, place - back)] }
  return n

def skipPast (stop : Char) (missing : Read Unit) : Nat → Read Unit
  | 0 => return
  | fuel + 1 => do
    match ← take with
    | none => missing
    | some t => if t == [stop] then return else skipPast stop missing fuel

def close : Read Unit := do
  if !(← accept ')') then failAt "missing ), unterminated subpattern" start

inductive Opening where
  /-- Nothing is to be read any more. -/
  | done (item : Option Regex)
  | whole
  | group (number : Option Nat) (atomic : Bool) (s : Switches)
  | look (ahead positive : Bool)
  | cond (number : Nat)

def opening (s : Switches) : Read Opening := do
  let next := demand "unexpected end of pattern"
  let unknown (mark : String) (t : Chars) : Read Opening :=
    refuse s!"unknown extension ?{mark}{String.ofList t}" (t.length + 1 + mark.length)
  if !(← accept '?') then return .group (some (← openGroup none)) false s
  match ← next with
  | ['P'] =>
    if ← accept '<' then return .group (some (← openGroup (some (← groupName '>')))) false s
    if ← accept '=' then
      let name ← groupName ')'
      return .done (some (← backref (← numberOf name) (name.length + 1) s))
    unknown "P" (← next)
  | [':'] => return .group none false s
  | ['#'] =>
    skipPast ')' (failAt "missing ), unterminated comment" start) (← size)
    return .done none
  | ['='] => return .look true true
  | ['!'] => return .look true false
  | ['<'] =>
    match ← next with
    | ['='] => return .look false true
    | ['!'] => return .look false false
    | t => unknown "<" t
  | ['('] =>
    let n ← conditionGroup
    checkBehind n
    return .cond n
  | ['>'] => return .group none true s
  | t =>
    if let [c] := t then
      if isSwitch c || c == '-' then
        let some s ← groupSwitches c s | return .whole
        return .group none false s
    unknown "" t

mutual

def alternatives : Nat → Bool → Switches → Read Regex
  | 0, _, _ => return .empty
  | fuel + 1, nested, s => do
    let first ← items fuel nested s (!nested) []
    if !(← accept '|') then return Regex.sequence first
    let whole := (← get).switches
    return .alt (Regex.sequence first) (← laterAlternatives fuel nested (if nested then s else whole))

def laterAlternatives : Nat → Bool → Switches → Read Regex
  | 0, _, _ => return .empty
  | fuel + 1, nested, s => do
    let one ← items fuel nested s false []
    if !(← accept '|') then return Regex.sequence one
    return .alt (Regex.sequence one) (← laterAlternatives fuel nested s)

/-- The items of one alternative. Switches for the whole expression may stand at its very start only. -/
def items : Nat → Bool → Switches → Bool → List Regex → Read (List Regex)
  | 0, _, _, _, acc => return acc
  | fuel + 1, nested, s, first, acc => do
    let start ← tell
    let token := (← get).next
    if [none, some ['|'], some [')']].contains token then return acc
    advance
    let again : List Regex → Read (List Regex) := items fuel nested s first
    let add (item : Regex) : Read (List Regex) := again (acc ++ [item])
    match token.getD [] with
    | ['\\', c] => add (← escape c s)
    | ['['] =>
      let negated ← accept '^'
      add (.set negated (← setParts start (← size) []) s)
    | ['*'] => again (← repeatLast acc 0 none start)
    | ['+'] => again (← repeatLast acc 1 none start)
    | ['?'] => again (← repeatLast acc 0 (some 1) start)
    | ['\x7b'] =>
      match ← bounds (start + 1) with
      | none => add (.char '\x7b' s)
      | some (least, most) => again (← repeatLast acc least most start)
    | ['.'] => add (.any s)
    | ['^'] => add (.anchor .lineStart s)
    | ['$'] => add (.anchor .lineEnd s)
    | ['('] =>
      match ← opening start s with
      | .done item => again (acc ++ item.toList)
      | .whole => do
        if !first || !acc.isEmpty then failAt "global flags not at the start of the expression" start
        let global := (← get).switches
        items fuel nested global first acc
      | .group number atomic inner => do
        let body ← alternatives fuel true inner
        close start
        match number with
        | some n =>
          closeGroup n body
          add (.group n body)
        | none => add (if atomic then .atomic body else .seq body .empty)
      | .look ahead positive => do
        let outer := (← get).behindFrom
        if !ahead && outer.isNone then modify fun r => { r with behindFrom := some r.groups }
        let body ← alternatives fuel true s
        if !ahead then modify fun r => { r with behindFrom := outer }
        close start
        add (if ahead then .ahead positive body else .behind positive body)
      | .cond number => do
        let yes ← items fuel true s false []
        let no ← if ← accept '|' then items fuel true s false [] else pure []
        if (← get).next == some ['|'] then refuse "conditional backref with more than two branches" 0
        close start
        add (.cond number (Regex.sequence yes) (Regex.sequence no))
    | t =>
      let c := t.headD ' '
      if s.verbose && isAsciiBlank c then again acc
      else if s.verbose && c == '#' then
        skipPast '\n' (pure ()) (← size)
        again acc
      else add (.char c s)

end

end Read

def Regex.read (pattern : String) (s : Switches) : Except RegexError Regex := do
  let chars := pattern.toList
  let (r, state) ← (Read.advance *> Read.alternatives (2 * chars.length + 2) false s).run
    { next := none, rest := chars, index := 0, switches := s }
  if let some t := state.next then
    throw { reason := "unbalanced parenthesis", position := some (state.index - t.length) }
  for (n, place) in state.conditions.find? (state.groups ≤ ·.1) do
    throw { reason := s!"invalid group reference {n}", position := some place }
  if !r.steadyBehind then throw { reason := "look-behind requires fixed-width pattern" }
  return r

end PatchReview.Pattern
