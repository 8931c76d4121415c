import PatchReview.Yaml.Scalar

/-!
# Composing a document

The tokens of a document are parsed into a graph of nodes: scalars, sequences and mappings. An alias is the node of its
anchor, so nodes may be shared and may hold themselves.
-/

namespace PatchReview.Yaml

/-!
## Scanning a document

Tokens are fetched as the parser asks for them. Indentation opens and closes blocks. A scalar, an alias or a bracket may
turn out to be a key when a colon follows it on its line; until then its place among the tokens is remembered.
-/

structure PossibleKey where
  number : Nat
  required : Bool
  place : Mark

structure Scanner where
  cursor : Cursor
  tokens : List Token := []
  taken : Nat := 0
  finished : Bool := false
  flow : Int := 0
  indent : Int := -1
  indents : List Int := []
  keyAllowed : Bool := true
  keys : List (Int × PossibleKey) := []

abbrev Fetch := StateT Scanner (Except Error)

namespace Fetch

def scan {α : Type} (m : Scan α) : Fetch α := do
  let s ← get
  let (a, c) ← m.run s.cursor
  set { s with cursor := c }
  return a

def here : Fetch Mark := return (← get).cursor.mark

def column : Fetch Int := return ((← here).column : Int)

def inFlow : Fetch Bool := return (← get).flow != 0

def push (t : Token) : Fetch Unit := modify fun s => { s with tokens := s.tokens ++ [t] }

variable (kind : TokenKind)

def pushMark : Fetch Unit := do
  let m ← here
  push ⟨kind, m, m⟩

def pushOver (n : Nat) : Fetch Unit := do
  let start ← here
  scan (Scan.forward n)
  push ⟨kind, start, ← here⟩

def allowKey (b : Bool) : Fetch Unit := modify fun s => { s with keyAllowed := b }

def fail {α : Type} (problem : String) : Fetch α := do
  throw (.marked none none problem (← here))

def failKey {α : Type} (k : PossibleKey) : Fetch α := do
  throw (.marked (some "while scanning a simple key") (some k.place) "could not find expected ':'" (← here))

def keyReach : Nat := 1024

def dropStaleKeys : Fetch Unit := do
  let s ← get
  let m := s.cursor.mark
  let isStale (k : PossibleKey) := k.place.line != m.line || keyReach < m.index - k.place.index
  match s.keys.find? fun e => isStale e.2 && e.2.required with
  | some e => failKey e.2
  | none => set { s with keys := s.keys.filter fun e => !isStale e.2 }

def dropKey : Fetch Unit := do
  let s ← get
  match s.keys.lookup s.flow with
  | none => return
  | some k =>
    if k.required then failKey k
    set { s with keys := s.keys.filter (·.1 != s.flow) }

def noteKey : Fetch Unit := do
  let s ← get
  let required := s.flow == 0 && s.indent == (s.cursor.mark.column : Int)
  if s.keyAllowed then
    dropKey
    let k : PossibleKey := ⟨s.taken + s.tokens.length, required, s.cursor.mark⟩
    modify fun s => { s with keys := s.keys ++ [(s.flow, k)] }

def unwind (column : Int) : Fetch Unit := do
  let s ← get
  if s.flow == 0 then
    let m := s.cursor.mark
    let closed := (s.indent :: s.indents).takeWhile (column < ·)
    match (s.indent :: s.indents).drop closed.length with
    | [] => return
    | indent :: indents =>
      set { s with indent, indents, tokens := s.tokens ++ closed.map fun _ => Token.mk .blockEnd m m }

def openBlock (column : Int) : Fetch Bool := do
  let s ← get
  if s.indent < column then
    set { s with indent := column, indents := s.indent :: s.indents }
    return true
  else return false

def skipToToken : Nat → Fetch Unit
  | 0 => return
  | fuel + 1 => do
    scan do
      Scan.skipWhile (· == ' ')
      Scan.skipComment
    let b ← scan Scan.lineBreak
    if b.isEmpty then return
    if !(← inFlow) then allowKey true
    skipToToken fuel

def streamEnd : Fetch Unit := do
  unwind (-1)
  dropKey
  allowKey false
  modify fun s => { s with keys := [], finished := true }
  pushMark .streamEnd

def directive : Fetch Unit := do
  unwind (-1)
  dropKey
  allowKey false
  push (← scan Scan.directive)

def documentMark : Fetch Unit := do
  unwind (-1)
  dropKey
  allowKey false
  pushOver kind 3

def openBracket : Fetch Unit := do
  noteKey
  modify fun s => { s with flow := s.flow + 1 }
  allowKey true
  pushOver kind 1

def closeBracket : Fetch Unit := do
  dropKey
  modify fun s => { s with flow := s.flow - 1 }
  allowKey false
  pushOver kind 1

def comma : Fetch Unit := do
  allowKey true
  dropKey
  pushOver .flowEntry 1

def hyphen : Fetch Unit := do
  if !(← inFlow) then
    if !(← get).keyAllowed then fail "sequence entries are not allowed here"
    if ← openBlock (← column) then pushMark .blockSequenceStart
  allowKey true
  dropKey
  pushOver .blockEntry 1

def questionMark : Fetch Unit := do
  let flow ← inFlow
  if !flow then
    if !(← get).keyAllowed then fail "mapping keys are not allowed here"
    if ← openBlock (← column) then pushMark .blockMappingStart
  allowKey (!flow)
  dropKey
  pushOver .key 1

def insertAt (number : Nat) (t : Token) : Fetch Unit := modify fun s =>
  let (before, after) := s.tokens.splitAt (number - s.taken)
  { s with tokens := before ++ t :: after }

def colon : Fetch Unit := do
  let s ← get
  let flow ← inFlow
  match s.keys.lookup s.flow with
  | some k =>
    set { s with keys := s.keys.filter (·.1 != s.flow) }
    insertAt k.number ⟨.key, k.place, k.place⟩
    if !flow then
      if ← openBlock k.place.column then insertAt k.number ⟨.blockMappingStart, k.place, k.place⟩
    allowKey false
  | none =>
    if !flow then
      if !s.keyAllowed then fail "mapping values are not allowed here"
      if ← openBlock (← column) then pushMark .blockMappingStart
    allowKey (!flow)
    dropKey
  pushOver .value 1

def keyLike (m : Scan Token) : Fetch Unit := do
  noteKey
  allowKey false
  push (← scan m)

def blockScalar (folded : Bool) : Fetch Unit := do
  allowKey true
  dropKey
  push (← scan (Scan.blockScalar folded (← get).indent))

def plainScalar : Fetch Unit := do
  noteKey
  let (t, ended) ← scan (Scan.plainScalar (← inFlow) (← get).indent)
  allowKey ended
  push t

def startsPlain (flow : Bool) (c next : Char) : Bool :=
  !(isWhite c || "-?:,[]\x7b\x7d#&*!|>\"%@`".toList.contains c || c == '\x27')
    || (!isWhite next && (c == '-' || (!flow && (c == '?' || c == ':'))))

def more : Fetch Unit := do
  skipToToken ((← get).cursor.rest.length + 1)
  dropStaleKeys
  unwind (← column)
  let s ← get
  let c := s.cursor.peek
  let next := s.cursor.peekAt 1
  let flow := s.flow != 0
  let atStart := s.cursor.mark.column == 0
  let separator ← scan Scan.atSeparator
  if c == ending then streamEnd
  else if c == '%' && atStart then directive
  else if c == '-' && atStart && separator then documentMark .documentStart
  else if c == '.' && atStart && separator then documentMark .documentEnd
  else if c == '[' then openBracket .flowSequenceStart
  else if c == '\x7b' then openBracket .flowMappingStart
  else if c == ']' then closeBracket .flowSequenceEnd
  else if c == '\x7d' then closeBracket .flowMappingEnd
  else if c == ',' then comma
  else if c == '-' && isWhite next then hyphen
  else if c == '?' && (flow || isWhite next) then questionMark
  else if c == ':' && (flow || isWhite next) then colon
  else if c == '*' || c == '&' then keyLike Scan.reference
  else if c == '!' then keyLike Scan.tag
  else if c == '|' && !flow then blockScalar false
  else if c == '>' && !flow then blockScalar true
  else if c == '\x27' || c == '"' then keyLike Scan.quotedScalar
  else if startsPlain flow c next then plainScalar
  else
    throw (.marked (some "while scanning for the next token") none
      s!"found character {shown c} that cannot start any token" s.cursor.mark)

def needsMore : Fetch Bool := do
  let s ← get
  if s.finished then return false
  if s.tokens.isEmpty then return true
  dropStaleKeys
  let s ← get
  return match (s.keys.map (·.2.number)).min? with
    | some n => n == s.taken
    | none => false

def settle : Nat → Fetch Unit
  | 0 => return
  | fuel + 1 => do
    if ← needsMore then
      more
      settle fuel

def peek : Fetch Token := do
  settle ((← get).cursor.rest.length + 2)
  let s ← get
  return s.tokens.headD ⟨.streamEnd, s.cursor.mark, s.cursor.mark⟩

def take : Fetch Token := do
  let t ← peek
  modify fun s => { s with tokens := s.tokens.tail, taken := s.taken + 1 }
  return t

end Fetch

/-- The scanner of a text. A byte order mark at its start does not count. -/
def Scanner.ofText (text : Chars) : Scanner :=
  if text.head? == some (Char.ofNat 0xFEFF) then { cursor := ⟨text.tail, ⟨1, 0, 0⟩⟩ } else { cursor := ⟨text, {}⟩ }

open Char

/-!
## Tags of plain scalars

A plain scalar that looks like a truth value, a number, null, a date or one of two marks has the tag of what it looks
like; any other is a text.
-/

def standardLead := "tag:yaml.org,2002:"

def standardTag (name : String) : String := standardLead ++ name

def standardName (tag : String) : String :=
  if beginsWith standardLead tag then dropChars standardLead.length tag else ""

def truthWords : Strings :=
  ["yes", "Yes", "YES", "no", "No", "NO", "true", "True", "TRUE", "false", "False", "FALSE", "on", "On", "ON", "off",
    "Off", "OFF"]

def nullWords : Strings := ["~", "null", "Null", "NULL", ""]

def afterSign : Chars → Chars
  | '-' :: s => s
  | '+' :: s => s
  | s => s

def isDigitLike (c : Char) : Bool := c.isDigit || c == '_'

def isRun (p : Char → Bool) (s : Chars) : Bool := !s.isEmpty && s.all p

/-- The rest after minutes and seconds: colons with one or two digits each, at least one of them. -/
def sixties? : Nat → Chars → Option Chars
  | 0, _ => none
  | fuel + 1, ':' :: a :: b :: s =>
    if '0' ≤ a && a ≤ '5' && b.isDigit then some ((sixties? fuel s).getD s)
    else if a.isDigit then some ((sixties? fuel (b :: s)).getD (b :: s))
    else none
  | _ + 1, [':', a] => if a.isDigit then some [] else none
  | _ + 1, _ => none

variable (s : Chars) (text : String)

def looksWhole : Bool :=
  match afterSign s with
  | ['0'] => true
  | '0' :: 'b' :: ds => isRun (fun c => c == '0' || c == '1' || c == '_') ds
  | '0' :: 'x' :: ds => isRun (fun c => isDigitLike c || ('a' ≤ c && c ≤ 'f') || ('A' ≤ c && c ≤ 'F')) ds
  | '0' :: ds => ds.all fun c => ('0' ≤ c && c ≤ '7') || c == '_'
  | c :: ds =>
    c.isDigit && (match ds.dropWhile isDigitLike with
      | [] => true
      | rest => sixties? (rest.length + 1) rest == some [])
  | [] => false

def isExponent : Chars → Bool
  | [] => true
  | e :: sign :: ds => (e == 'e' || e == 'E') && (sign == '+' || sign == '-') && isRun isDigit ds
  | _ => false

def looksReal : Bool :=
  let body := afterSign s
  let signed := body.length != s.length
  let digits := body.takeWhile isDigitLike
  match digits, body.drop digits.length with
  | [], '.' :: rest =>
    let word := String.ofList rest
    ["inf", "Inf", "INF"].contains word
      || (!signed && (["nan", "NaN", "NAN"].contains word
        || ((rest.head?.map isDigit).getD false && isExponent (rest.dropWhile isDigitLike))))
  | c :: _, '.' :: rest => c.isDigit && isExponent (rest.dropWhile isDigitLike)
  | c :: _, rest =>
    c.isDigit && (match sixties? (rest.length + 1) rest with
      | some ('.' :: places) => places.all isDigitLike
      | _ => false)
  | _, _ => false

def takeDigits (least : Nat) (s : Chars) : Option (Chars × Chars) :=
  let ds := (s.take 2).takeWhile isDigit
  if least ≤ ds.length then some (ds, s.drop ds.length) else none

def after? (c : Char) : Chars → Option Chars
  | d :: s => if c == d then some s else none
  | [] => none

structure Timestamp where
  year : Chars
  month : Chars
  day : Chars
  time : Option (Chars × Chars × Chars) := none
  fraction : Chars := []
  /-- The sign, the hours and the minutes of an offset; universal time has none of them. -/
  zone : Option (Option (Bool × Chars × Chars)) := none

def zone? : Option (Option (Option (Bool × Chars × Chars))) :=
  match s with
  | [] => some none
  | _ =>
    match s.dropWhile fun c => c == ' ' || c == '\t' with
    | ['Z'] => some (some none)
    | sign :: rest =>
      if sign == '+' || sign == '-' then do
        let (h, rest) ← takeDigits 1 rest
        match rest with
        | [] => some (some (some (sign == '-', h, [])))
        | ':' :: m => if m.length == 2 && m.all isDigit then some (some (some (sign == '-', h, m))) else none
        | _ => none
      else none
    | [] => none

def timestamp? : Option Timestamp := do
  let year := (s.take 4).takeWhile isDigit
  if year.length != 4 then none
  let s ← after? '-' (s.drop 4)
  let (month, s) ← takeDigits 1 s
  let s ← after? '-' s
  let (day, s) ← takeDigits 1 s
  match s with
  | [] => return { year, month, day }
  | c :: rest =>
    let s ← if c == 'T' || c == 't' then some rest
      else if c == ' ' || c == '\t' then some (rest.dropWhile fun c => c == ' ' || c == '\t')
      else none
    let (hour, s) ← takeDigits 1 s
    let s ← after? ':' s
    let (minute, s) ← takeDigits 2 s
    let s ← after? ':' s
    let (second, s) ← takeDigits 2 s
    let (fraction, s) := match s with
      | '.' :: t => (t.takeWhile isDigit, t.dropWhile isDigit)
      | t => ([], t)
    let zone ← zone? s
    return { year, month, day, time := some (hour, minute, second), fraction, zone }

/-- Whether a text looks like a point in time. A date alone has two digits each for its month and its day. -/
def looksTimestamp : Bool :=
  match timestamp? s with
  | some t => t.time.isSome || (t.month.length == 2 && t.day.length == 2)
  | none => false

def withoutFinalBreak (s : String) : String := if finishesWith "\n" s then dropLastChars 1 s else s

def plainTag : String :=
  let word := withoutFinalBreak text
  let s := word.toList
  if truthWords.contains word then standardTag "bool"
  else if looksReal s then standardTag "float"
  else if looksWhole s then standardTag "int"
  else if word == "<<" then standardTag "merge"
  else if nullWords.contains word && (word != "" || text == "") then standardTag "null"
  else if looksTimestamp s then standardTag "timestamp"
  else if word == "=" then standardTag "value"
  else standardTag "str"

/-- What a node holds; parts are numbers of nodes. -/
inductive Body where
  | scalar (text : String)
  | sequence (items : List Nat)
  | mapping (pairs : List (Nat × Nat))
  deriving Inhabited

def Body.kind : Body → String
  | scalar _ => "scalar"
  | sequence _ => "sequence"
  | mapping _ => "mapping"

structure Node where
  tag : String
  start : Mark
  body : Body
  deriving Inhabited

structure Anchored where
  node : Nat
  start : Mark
  complete : Bool

structure Graph where
  nodes : Array Node := #[]
  root : Nat := 0
  cyclic : Bool := false

structure Composer where
  scanner : Scanner
  graph : Graph := {}
  anchors : List (String × Anchored) := []
  handles : Pairs := []

abbrev Compose := StateT Composer (Except Error)

namespace Compose

variable (anchor : Option String) {α : Type} (given : Option String) (ends : List TokenKind) (tag : String)
  (start : Mark)

def fetch (m : Fetch α) : Compose α := do
  let s ← get
  let (a, scanner) ← m.run s.scanner
  set { s with scanner }
  return a

def peek : Compose Token := fetch Fetch.peek

def peekKind : Compose TokenKind := return (← peek).kind

def take : Compose Token := fetch Fetch.take

def skip : Compose Unit := do
  let _ ← take

def fail (context : Option String) (start : Option Mark) (problem : TokenKind → String) : Compose α := do
  let t ← peek
  throw (.marked context start (problem t.kind) t.start)

def add (n : Node) : Compose Nat := do
  let s ← get
  set { s with graph := { s.graph with nodes := s.graph.nodes.push n } }
  return s.graph.nodes.size

def addEmpty (m : Mark) : Compose Nat := add ⟨standardTag "null", m, .scalar ""⟩

def name (anchor : Option String) (a : Anchored) : Compose Unit := do
  if let some name := anchor then
    modify fun s => { s with anchors := (name, a) :: s.anchors }

def checkAnchor : Compose Unit := do
  if let some name := anchor then
    if let some first := (← get).anchors.lookup name then
      throw (.marked (some s!"found duplicate anchor {quoted name}; first occurrence") (some first.start)
        "second occurrence" start)

def addScalar (text : String) : Compose Nat := do
  checkAnchor anchor start
  let n ← add ⟨tag, start, .scalar text⟩
  name anchor ⟨n, start, true⟩
  return n

/-- Adds a collection that may be named, and what it holds after that. -/
def addCollection (body : Compose Body) : Compose Nat := do
  checkAnchor anchor start
  let n ← add ⟨tag, start, .scalar ""⟩
  name anchor ⟨n, start, false⟩
  let b ← body
  modify fun s => { s with
    graph := { s.graph with nodes := s.graph.nodes.modify n fun node => { node with body := b } }
    anchors := s.anchors.map fun (k, a) => (k, if a.node == n then { a with complete := true } else a) }
  return n

def aliased (name : String) (start : Mark) : Compose Nat := do
  match (← get).anchors.lookup name with
  | none => throw (.marked none none s!"found undefined alias {quoted name}" start)
  | some a =>
    if !a.complete then modify fun s => { s with graph := { s.graph with cyclic := true } }
    return a.node

structure Properties where
  anchor : Option String := none
  tag : Option String := none
  start : Option Mark := none

def resolveTag (start place : Mark) : Option String → String → Compose String
  | none, suffix => return suffix
  | some handle, suffix => do
    match (← get).handles.lookup handle with
    | some lead => return lead ++ suffix
    | none =>
      throw (.marked (some "while parsing a node") (some start) s!"found undefined tag handle {quoted handle}" place)

def properties : Compose Properties := do
  let first ← peek
  match first.kind with
  | .anchor name =>
    skip
    let second ← peek
    match second.kind with
    | .tag handle suffix =>
      skip
      return ⟨some name, some (← resolveTag first.start second.start handle suffix), some first.start⟩
    | _ => return ⟨some name, none, some first.start⟩
  | .tag handle suffix =>
    skip
    let anchor ← match ← peekKind with
      | .anchor name => skip *> pure (some name)
      | _ => pure none
    return ⟨anchor, some (← resolveTag first.start first.start handle suffix), some first.start⟩
  | _ => return {}

def collectionTag (default : String) : String :=
  match given with
  | none | some "!" => standardTag default
  | some t => t

def scalarTag (plain : Bool) (text : String) : String :=
  match given with
  | none => if plain then plainTag text else standardTag "str"
  | some "!" => plainTag text
  | some t => t

/-- A node without content, which only an anchor or a tag can be. -/
def orEmpty (p : Properties) (block : Bool) (t : Token) : Compose Nat := do
  if p.anchor.isNone && p.tag.isNone then
    let kind := if block then "block" else "flow"
    fail (some s!"while parsing a {kind} node") (some t.start) fun k =>
      s!"expected the node content, but found {quoted k.name}"
  addScalar p.anchor (scalarTag p.tag true "") (p.start.getD t.start) ""

/-- Parses what comes next, which is an empty node before some tokens. -/
def emptyBefore (here : Mark) (next : Compose Nat) : Compose Nat := do
  if ends.contains (← peekKind) then addEmpty here else next

def valueBefore (next : Compose Nat) : Compose Nat := do
  let t ← peek
  if t.kind == .value then
    skip
    emptyBefore ends t.stop next
  else addEmpty t.start

/-- Refuses what is neither part nor end of a collection. -/
def refuse (what : String) (start : Mark) (wanted : String) : Compose α :=
  fail (some s!"while parsing a {what}") (some start) fun k => s!"expected {wanted} {quoted k.name}"

/-- Goes over the comma before an item that is not the first. -/
def comma (first : Bool) (what : String) (start : Mark) (close : String) : Compose Unit := do
  if !first then
    if (← peekKind) == .flowEntry then skip else refuse what start s!"',' or '{close}', but got"

mutual

/-- Parses a node. Only a `block` may be opened by indentation; hyphens may stand for a sequence where the keys
around it have the same column when `loose`. -/
def node (block loose : Bool) : Nat → Compose Nat
  | 0 => addEmpty {}
  | fuel + 1 => do
    let first ← peek
    if let .alias name := first.kind then
      skip
      return ← aliased name first.start
    let p ← properties
    let t ← peek
    let collection (kind : String) (body : Compose Body) : Compose Nat :=
      addCollection p.anchor (collectionTag p.tag kind) (p.start.getD t.start) body
    match t.kind with
    | .scalar text plain =>
      skip
      addScalar p.anchor (scalarTag p.tag plain text) (p.start.getD t.start) text
    | .flowSequenceStart => collection "seq" (skip *> flowItems t.start true [] fuel)
    | .flowMappingStart => collection "map" (skip *> flowPairs t.start true [] fuel)
    | k =>
      if k == .blockEntry && loose then collection "seq" (looseItems [] fuel)
      else if k == .blockSequenceStart && block then collection "seq" (skip *> blockItems t.start [] fuel)
      else if k == .blockMappingStart && block then collection "map" (skip *> blockPairs t.start [] fuel)
      else orEmpty p block t

def blockItems (start : Mark) (acc : List Nat) : Nat → Compose Body
  | 0 => return .sequence acc.reverse
  | fuel + 1 => do
    match ← peekKind with
    | .blockEntry =>
      let t ← take
      let n ← emptyBefore [.blockEntry, .blockEnd] t.stop (node true false fuel)
      blockItems start (n :: acc) fuel
    | .blockEnd =>
      skip
      return .sequence acc.reverse
    | _ => refuse "block collection" start "<block end>, but found"

def looseItems (acc : List Nat) : Nat → Compose Body
  | 0 => return .sequence acc.reverse
  | fuel + 1 => do
    if (← peekKind) != .blockEntry then return .sequence acc.reverse
    let t ← take
    let n ← emptyBefore [.blockEntry, .key, .value, .blockEnd] t.stop (node true false fuel)
    looseItems (n :: acc) fuel

def blockPairs (start : Mark) (acc : List (Nat × Nat)) : Nat → Compose Body
  | 0 => return .mapping acc.reverse
  | fuel + 1 => do
    match ← peekKind with
    | .key =>
      let t ← take
      let k ← emptyBefore [.key, .value, .blockEnd] t.stop (node true true fuel)
      let v ← valueBefore [.key, .value, .blockEnd] (node true true fuel)
      blockPairs start ((k, v) :: acc) fuel
    | .blockEnd =>
      skip
      return .mapping acc.reverse
    | _ => refuse "block mapping" start "<block end>, but found"

def flowItems (start : Mark) (first : Bool) (acc : List Nat) : Nat → Compose Body
  | 0 => return .sequence acc.reverse
  | fuel + 1 => do
    if (← peekKind) != .flowSequenceEnd then comma first "flow sequence" start "]"
    let t ← peek
    match t.kind with
    | .flowSequenceEnd =>
      skip
      return .sequence acc.reverse
    | .key =>
      let n ← addCollection none (standardTag "map") t.start (flowPair fuel)
      flowItems start false (n :: acc) fuel
    | _ =>
      let n ← node false false fuel
      flowItems start false (n :: acc) fuel

def flowPair : Nat → Compose Body
  | 0 => return .mapping []
  | fuel + 1 => do
    let t ← take
    let k ← emptyBefore [.value, .flowEntry, .flowSequenceEnd] t.stop (node false false fuel)
    let v ← valueBefore [.flowEntry, .flowSequenceEnd] (node false false fuel)
    return .mapping [(k, v)]

def flowPairs (start : Mark) (first : Bool) (acc : List (Nat × Nat)) : Nat → Compose Body
  | 0 => return .mapping acc.reverse
  | fuel + 1 => do
    if (← peekKind) != .flowMappingEnd then comma first "flow mapping" start "\x7d"
    match ← peekKind with
    | .flowMappingEnd =>
      skip
      return .mapping acc.reverse
    | .key =>
      let t ← take
      let k ← emptyBefore [.value, .flowEntry, .flowMappingEnd] t.stop (node false false fuel)
      let v ← valueBefore [.flowEntry, .flowMappingEnd] (node false false fuel)
      flowPairs start false ((k, v) :: acc) fuel
    | _ =>
      let k ← node false false fuel
      let v ← addEmpty (← peek).start
      flowPairs start false ((k, v) :: acc) fuel

end

def standardHandles : Pairs := [("!", "!"), ("!!", standardLead)]

/-- Parses the directives before a document; `versioned` says that one of them was a version. -/
def directives : Nat → Bool → Pairs → Compose Pairs
  | 0, _, handles => return handles
  | fuel + 1, versioned, handles => do
    let t ← peek
    match t.kind with
    | .directive d =>
      skip
      match d with
      | .version major _ =>
        if versioned then throw (.marked none none "found duplicate YAML directive" t.start)
        if major != 1 then
          throw (.marked none none "found incompatible YAML document (version 1.* is required)" t.start)
        directives fuel true handles
      | .tag handle lead =>
        if (handles.lookup handle).isSome then
          throw (.marked none none s!"duplicate tag handle {quoted handle}" t.start)
        directives fuel versioned (handles ++ [(handle, lead)])
      | .other => directives fuel versioned handles
    | _ => return handles

def skipEnds : Nat → Compose Unit
  | 0 => return
  | fuel + 1 => do
    if (← peekKind) == .documentEnd then
      skip
      skipEnds fuel

def documentStart (fuel : Nat) : Compose Unit := do
  let handles ← directives fuel false []
  modify fun s => { s with handles := handles ++ standardHandles }
  if (← peekKind) != .documentStart then
    fail none none fun k => s!"expected '<document start>', but found {quoted k.name}"
  skip

def root? (fuel : Nat) : Compose (Option Nat) := do
  match ← peekKind with
  | .streamEnd => return none
  | .directive _ | .documentStart =>
    documentStart fuel
    let t ← peek
    match t.kind with
    | .directive _ | .documentStart | .documentEnd | .streamEnd => return some (← addEmpty t.start)
    | _ => return some (← node true false fuel)
  | _ =>
    modify fun s => { s with handles := standardHandles }
    return some (← node true false fuel)

def single (fuel : Nat) : Compose (Option Graph) := do
  match ← root? fuel with
  | none => return none
  | some root =>
    skipEnds fuel
    let t ← peek
    if t.kind != .streamEnd then
      documentStart fuel
      let first := (← get).graph.nodes[root]?.map (·.start)
      throw (.marked (some "expected a single document in the stream") first "but found another document" t.start)
    return some { (← get).graph with root }

end Compose

def compose : Except Error (Option Graph) := do
  let cs := text.toList
  if let some e := unacceptable? 0 cs then throw e
  let (g, _) ← (Compose.single (8 * cs.length + 16)).run { scanner := Scanner.ofText cs }
  return g

end PatchReview.Yaml
