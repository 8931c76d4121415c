import PatchReview.Python.Grammar.Notation
import PatchReview.Python.Tree
import PatchReview.Number.Real
import PatchReview.Graph.Flow

/-!
# Python modules

The statements of a module at its outermost level: what they define, assign and import. Statements inside others are
only checked for being well formed.
-/

namespace PatchReview.Python

/-!
## Parsing Python text

The grammar is tried on the tokens from left to right. When nothing fits, it is tried once more with the rules for text
that is wrong in a known way, so that the message says what is wrong.
-/

namespace Expr

mutual

def untargetable? (use : TargetUse) : Expr → Option Expr
  | mk f r ps =>
    match f with
    | .name _ | .element | .attribute => none
    | .list | .tuple => firstUntargetable? use ps
    | .starred => if use == .deleted then some (mk f r ps) else firstUntargetable? use ps
    | .compare membership =>
      if use == .looped then if membership then headUntargetable? use ps else none else some (mk f r ps)
    | _ => some (mk f r ps)

def firstUntargetable? (use : TargetUse) : List Expr → Option Expr
  | [] => none
  | e :: es => e.untargetable? use <|> firstUntargetable? use es

def headUntargetable? (use : TargetUse) : List Expr → Option Expr
  | [] => none
  | e :: _ => e.untargetable? use

end

end Expr

structure Source where
  tokens : Array Token
  halt : Halt
  brackets : List (Char × Nat)
  /-- Whether the text is an expression of a formatted text. -/
  formatted : Bool := false

/-- An error, and whether the tokens behind it cannot change it. -/
structure Failure where
  error : SyntaxError
  final : Bool := false

structure Progress where
  mark : Nat := 0
  seen : Nat := 0
  outcomes : Std.HashMap Nat (Option Tree × Nat) := {}
  wary : Bool := false

inductive Outcome where
  | fits (t : Tree) (p : Progress)
  /-- It does not fit; whether no other alternative may be tried. -/
  | misses (cut : Bool) (p : Progress)
  | fails (f : Failure) (p : Progress)

namespace Source

variable (x : Source) (p : Progress)

def lastLine : Nat := ((x.tokens[p.seen - 1]?).map (·.start.line)).getD 1

def worded (reason : String) : String := if x.formatted then "f-string: " ++ reason else reason

def error (kind : ErrorKind) (line : Nat) (reason : String) : SyntaxError := ⟨x.worded reason, some line, kind⟩

def unclosed? : Option (SyntaxError × Nat) :=
  x.brackets.head?.map fun (c, line) => (x.error .form line s!"'{c}' was never closed", line)

def haltError : Option SyntaxError :=
  match x.halt with
  | .finished => none
  | .flaw e => some e
  | .layout e => some { e with reason := x.worded e.reason }
  | .ended line =>
    match x.unclosed? with
    | some (e, _) => some e
    | none => some (x.error .form line "unexpected EOF while parsing")

/-- The error that is told in the end: a flaw or an open bracket further on counts more. -/
def settled (e : SyntaxError) : SyntaxError :=
  match x.halt with
  | .finished => e
  | .flaw f => f
  | _ =>
    match x.unclosed? with
    | some (f, line) => if line < x.lastLine p then f else e
    | none => e

end Source

def softWords : Strings := ["_", "case", "match"]

variable (x : Source) (p : Progress) (c : Complaint) (t : Terminal) (k : Token)

/-- Whether a token is what is looked for. The start of a name that is a keyword somewhere counts as one. -/
def Terminal.fits : Bool :=
  match t with
  | .kind wanted => k.kind == wanted
  | .word w => (k.kind == .operator || k.kind == .keyword) && k.text == w
  | .soft w => k.kind == .name && k.text == w
  | .softWord => k.kind == .name && softWords.any (beginsWith k.text)

/-- How many digits a decimal number has, when it is whole. -/
def wholeDigits : Nat :=
  if k.text.toList.all fun c => c.isDigit || c == '_' then (k.text.toList.filter Char.isDigit).length else 0

/-- What is wrong with a number: one of more digits than can be read. -/
def numberFlaw? : Option SyntaxError :=
  let n := wholeDigits k
  if Number.digitLimit < n then
    some (x.error .form k.start.line (Number.digitLimitText n ++
      " - Consider hexadecimal for huge integer literals to avoid decimal conversion limits."))
  else none

namespace Tree

def line? : Tree → Option Nat
  | leaf t => some t.start.line
  | t => t.first?.map fun _ => t.expr.range.start.line

def row : Tree → List Tree
  | list ts => ts
  | _ => []

/-- Whether a tree holds the two stars of a mapping poured into arguments. -/
def poursMapping : Tree → Bool
  | node "kwarg_or_stars" 2 _ => true
  | _ => false

def namedArguments : Tree → List Tree
  | node "args" 0 [_, list [_, node "kwargs" _ cs]] => cs.flatMap row
  | node "args" 1 [node "kwargs" _ cs] => cs.flatMap row
  | _ => []

def plainArguments (t : Tree) : List Tree :=
  let starred := t.namedArguments.filter fun
    | node "kwarg_or_star" 2 _ => true
    | _ => false
  match t with
  | node "args" 0 (list ts :: _) => ts ++ starred
  | _ => starred

end Tree

def Complaint.text (e : Expr) (subject : Tree) : String :=
  let word := ((subject.first?.map nameOf).getD "")
  let line := toString ((subject.first?.map (·.start.line)).getD 1)
  let fill (key value : String) (s : String) := if holds key s then substitute key value s else s
  fill "%n" e.title (fill "%l" line (fill "%t" word c.message))

def Complaint.error? (children : List Tree) : Option SyntaxError :=
  let subject := (children[c.subject]?).getD .none
  let e := subject.expr
  let line := ((c.place.bind fun i => children[i]?).bind Tree.line?).getD (x.lastLine p)
  let legacy := match e.form with
    | .name id => id == "print" || id == "exec"
    | _ => false
  match c.test with
  | .always => some (x.error c.kind line (c.text e subject))
  | .target use => (e.untargetable? use).map fun bad => x.error c.kind bad.range.start.line (c.text bad subject)
  | .legacy => if legacy then some (x.error c.kind line (c.text e subject)) else none
  | .comma =>
    if legacy || ((x.tokens[p.mark - 1]?).map (·.depth)).getD 0 = 0 then none
    else some (x.error c.kind line (c.text e subject))
  | .arguments =>
    let more := if subject.namedArguments.any Tree.poursMapping then " unpacking" else ""
    some (x.error c.kind line (c.message ++ more))
  | .generator =>
    match subject.plainArguments.getLast? with
    | some t =>
      if subject.plainArguments.length ≤ 1 then none
      else some (x.error c.kind (t.line?.getD 1) c.message)
    | none => none

def depthLimit : Nat := 6000

def groupTree : List Tree → Tree
  | [t] => t
  | ts => .list ts

def depthFailure : Failure := ⟨⟨"", none, .depth⟩, true⟩

def takeToken (other : Token → Progress → Outcome) : Outcome :=
  match x.tokens[p.mark]? with
  | some k =>
    let p := { p with seen := max p.seen (p.mark + 1) }
    if !t.fits k then other k p
    else match (if k.kind == .number then numberFlaw? x k else none) with
    | some e => .fails ⟨e, false⟩ p
    | none => .fits (.leaf k) { p with mark := p.mark + 1 }
  | none =>
    match x.haltError with
    | some e => .fails ⟨e, true⟩ p
    | none => .misses false p

def found (fits : Bool) (p : Progress) : Outcome := if fits then .fits .none p else .misses false p

mutual

def tryRule (x : Source) : Nat → Nat → Nat → Progress → Outcome
  | 0, _, _, p => .fails depthFailure p
  | fuel + 1, level, i, p =>
    if depthLimit ≤ level then .fails depthFailure p
    else match grammar.get[i]? with
    | none => .misses false p
    | some r =>
      let key := p.mark * 256 + i
      let start := p.mark
      match (if r.kept || r.recursive then p.outcomes[key]? else none) with
      | some (some t, m) => .fits t { p with mark := m }
      | some (none, m) => .misses false { p with mark := m }
      | none =>
        if r.recursive then grow x fuel level i r key start none start p
        else
          let wary := p.wary
          let p := if r.check == .unwary then { p with wary := false } else p
          let done := match tryAlternatives x fuel (level + 1) r.name 0 r.alternatives start p with
            | .fits t p => tryCheck x fuel r t p
            | o => o
          match done with
          | .fits t p =>
            let p := { p with wary }
            .fits t (if r.kept then { p with outcomes := p.outcomes.insert key (some t, p.mark) } else p)
          | .misses _ p =>
            let p := { p with wary }
            .misses false (if r.kept then { p with outcomes := p.outcomes.insert key (none, p.mark) } else p)
          | o => o
termination_by structural n => n

/-- Tries a rule that may start with itself, with the outcome so far in its place, until it takes no more. -/
def grow (x : Source) : Nat → Nat → Nat → Rule → Nat → Nat → Option Tree → Nat → Progress → Outcome
  | 0, _, _, _, _, _, _, _, p => .fails depthFailure p
  | fuel + 1, level, i, r, key, start, best, reached, p =>
    let p := { p with outcomes := p.outcomes.insert key (best, reached), mark := start }
    let finish (p : Progress) : Outcome :=
      match best with
      | some t => .fits t { p with mark := reached }
      | none => .misses false { p with mark := reached }
    match tryAlternatives x fuel (level + 2) r.name 0 r.alternatives start p with
    | .fits t p => if p.mark ≤ reached then finish p else grow x fuel level i r key start (some t) p.mark p
    | .misses _ p => finish p
    | o => o
termination_by structural n => n

def tryCheck (x : Source) : Nat → Rule → Tree → Progress → Outcome
  | 0, _, _, p => .fails depthFailure p
  | fuel + 1, r, t, p =>
    let isNumber (kind : String) (good : Token → Bool) : Outcome :=
      match t.first?.filter (!good ·) with
      | some k => .fails ⟨x.error .form k.start.line s!"{kind} number required in complex literal", false⟩ p
      | none => .fits t p
    match r.check with
    | .texts =>
      let compile (code : Chars) (line : Nat) : Except LiteralFlaw Unit :=
        let ts := tokensOf (['('] ++ code ++ [')']) line
        match parseTokens fuel ⟨ts.tokens, ts.halt, ts.brackets, true⟩ "fstring" with
        | .ok _ => .ok ()
        | .error e => .error (.inside e)
      match literalOf compile t.tokens with
      | .ok _ => .fits t p
      | .error (_, .here reason) => .fails ⟨x.error .form (x.lastLine p) reason, false⟩ p
      | .error (line, .self reason) => .fails ⟨x.error .form (line.getD 1) reason, false⟩ p
      | .error (_, .inside e) => .fails ⟨e, false⟩ p
    | .real => isNumber "real" (!Tree.isImaginary ·)
    | .imaginary => isNumber "imaginary" Tree.isImaginary
    | _ => .fits t p
termination_by structural n => n

def tryAlternatives (x : Source) : Nat → Nat → String → Nat → List Alternative → Nat → Progress → Outcome
  | 0, _, _, _, _, _, p => .fails depthFailure p
  | _ + 1, _, _, _, [], start, p => .misses false { p with mark := start }
  | fuel + 1, level, name, n, a :: as, start, p =>
    if a.diagnostic && !p.wary then tryAlternatives x fuel level name (n + 1) as start p
    else match tryItems x fuel level a.items [] false p with
    | .fits t p =>
      let children := t.row
      match a.complaint with
      | none => .fits (.node name n children) p
      | some c =>
        match c.error? x p children with
        | some e => .fails ⟨e, false⟩ p
        | none => .misses true p
    | .misses true p => .misses false { p with mark := start }
    | .misses false p => tryAlternatives x fuel level name (n + 1) as start { p with mark := start }
    | o => o
termination_by structural n => n

/-- Tries the items of an alternative in turn; `done` holds the trees so far, last first. -/
def tryItems (x : Source) : Nat → Nat → List Item → List Tree → Bool → Progress → Outcome
  | 0, _, _, _, _, p => .fails depthFailure p
  | _ + 1, _, [], done, _, p => .fits (.list done.reverse) p
  | fuel + 1, level, .cut :: is, done, _, p => tryItems x fuel level is (.none :: done) true p
  | fuel + 1, level, i :: is, done, cut, p =>
    match tryItem x fuel level i p with
    | .fits t p => tryItems x fuel level is (t :: done) cut p
    | .misses _ p => .misses cut p
    | o => o
termination_by structural n => n

def tryItem (x : Source) : Nat → Nat → Item → Progress → Outcome
  | 0, _, _, p => .fails depthFailure p
  | fuel + 1, level, i, p =>
    match i with
    | .token t => takeToken x p t fun _ p => .misses false p
    | .due w => takeToken x p (.word w) fun k p => .fails ⟨x.error .form k.start.line s!"expected '{w}'", false⟩ p
    | .rule i => tryRule x fuel level i p
    | .maybe i =>
      let start := p.mark
      match tryItem x fuel level i p with
      | .misses _ p => .fits .none { p with mark := start }
      | o => o
    | .many least i => tryMany x fuel (level + 1) i least [] p
    | .gather sep i =>
      match tryItem x fuel (level + 1) i p with
      | .fits t p => tryMore x fuel (level + 2) sep i [t] p
      | o => o
    | .group as => tryGroup x fuel (level + 1) as p.mark p
    | .ahead wanted i =>
      let start := p.mark
      match tryItem x fuel level i p with
      | .fits _ p => found wanted { p with mark := start }
      | .misses _ p => found (!wanted) { p with mark := start }
      | o => o
    | .cut => .fits .none p
termination_by structural n => n

def tryGroup (x : Source) : Nat → Nat → List (List Item) → Nat → Progress → Outcome
  | 0, _, _, _, p => .fails depthFailure p
  | _ + 1, _, [], start, p => .misses false { p with mark := start }
  | fuel + 1, level, a :: as, start, p =>
    match tryItems x fuel level a [] false p with
    | .fits t p => .fits (groupTree t.row) p
    | .misses _ p => tryGroup x fuel level as start { p with mark := start }
    | o => o
termination_by structural n => n

def tryMany (x : Source) : Nat → Nat → Item → Bool → List Tree → Progress → Outcome
  | 0, _, _, _, _, p => .fails depthFailure p
  | fuel + 1, level, i, least, done, p =>
    let start := p.mark
    match tryItem x fuel level i p with
    | .fits t p =>
      if p.mark = start then .fits (.list (t :: done).reverse) p
      else tryMany x fuel level i false (t :: done) p
    | .misses _ p =>
      let p := { p with mark := start }
      if least then .misses false p else .fits (.list done.reverse) p
    | o => o
termination_by structural n => n

def tryMore (x : Source) : Nat → Nat → Item → Item → List Tree → Progress → Outcome
  | 0, _, _, _, _, p => .fails depthFailure p
  | fuel + 1, level, sep, i, done, p =>
    let start := p.mark
    match tryItem x fuel level sep p with
    | .fits _ p =>
      match tryItem x fuel level i p with
      | .fits t p => tryMore x fuel level sep i (t :: done) p
      | .misses _ p => .fits (.list done.reverse) { p with mark := start }
      | o => o
    | .misses _ p => .fits (.list done.reverse) { p with mark := start }
    | o => o
termination_by structural n => n

def parseTokens : Nat → Source → String → Except SyntaxError Tree
  | 0, _, _ => .error depthFailure.error
  | fuel + 1, x, rule =>
    let start := placeOf rule
    let told (f : Failure) (p : Progress) := if f.final then f.error else x.settled p f.error
    match tryRule x fuel 0 start {} with
    | .fits t _ => .ok t
    | .fails f p => .error (told f p)
    | .misses _ p =>
      let last := x.tokens[p.seen - 1]?
      match tryRule x fuel 0 start { seen := p.seen, wary := true } with
      | .fails f p => .error (told f p)
      | .fits _ p | .misses _ p =>
        match last.map fun (k : Token) => k.kind with
        | some .indent => .error (x.error .indentation (x.lastLine p) "unexpected indent")
        | some .dedent => .error (x.error .indentation (x.lastLine p) "unexpected unindent")
        | _ =>
          let line := (last.map (·.start.line)).getD 1
          .error (x.settled p (x.error .form line "invalid syntax"))
termination_by structural n => n

end

namespace Tree

/-- Whether an alternative puts an expression or a branch into another one without brackets. -/
def nests (rule : String) (alternative : Nat) (children : List Tree) : Bool :=
  match rule, alternative with
  | "factor", 3 | "not_test", 1 | "power", 1 => false
  | "factor", _ | "not_test", _ | "power", _ | "lambdef", _ | "expr", 2 | "elif_stmt", _ => true
  | "primary", n | "owner", n => n < 4
  | "bit_or", _ | "bit_xor", _ | "bit_and", _ | "shift", _ | "sum", _ | "term", _ => children.length = 3
  | _, _ => false

mutual

def nesting : Tree → Nat
  | node rule n cs => nestingOf cs + (if nests rule n cs then 1 else 0)
  | list cs => nestingOf cs
  | _ => 0

def nestingOf : List Tree → Nat
  | [] => 0
  | c :: cs => max c.nesting (nestingOf cs)

end

end Tree

def nestingLimit : Nat := 2970

def parseModule (text : String) : Except SyntaxError Tree := do
  if text.toList.contains '\x00' then throw ⟨"source code string cannot contain null bytes", none, .form⟩
  let ts := tokensOf text.toList 1
  let t ← parseTokens (100000 + 20 * ts.tokens.size) ⟨ts.tokens, ts.halt, ts.brackets, false⟩ "file"
  if nestingLimit < t.nesting then throw ⟨"maximum recursion depth exceeded during ast construction", none, .nesting⟩
  return t

namespace Expr

variable (e : Expr)

def isNumber : Bool :=
  match e.form with
  | .number _ => true
  | _ => false

/-- Whether an expression is a number, maybe with a sign, that is not imaginary. -/
def isReal : Bool :=
  match e with
  | mk (.number imaginary) _ _ => !imaginary
  | mk .signed _ [mk (.number imaginary) _ _] => !imaginary
  | _ => false

mutual

def isKey : Expr → Bool
  | mk f _ ps =>
    match f with
    | .list | .set | .dict | .call _ => false
    | .tuple => areKeys ps
    | _ => true

def areKeys : List Expr → Bool
  | [] => true
  | e :: es => e.isKey && areKeys es

end

def keysOf : List Expr → List Expr
  | k :: _ :: es => k :: keysOf es
  | es => es

mutual

def isLiteral : Expr → Bool
  | mk f _ ps =>
    match f with
    | .text _ | .bytes | .number _ | .constant _ => true
    | .list | .tuple => areLiteral ps
    | .set => areLiteral ps && areKeys ps
    | .dict => areLiteral ps && areKeys (keysOf ps)
    | .signed => ps.all isNumber
    | .sum =>
      match ps with
      | [a, mk (.number true) _ _] => a.isReal
      | _ => false
    | .call bare =>
      match ps with
      | [mk (.name "set") _ _] => bare
      | _ => false
    | _ => false

def areLiteral : List Expr → Bool
  | [] => true
  | e :: es => e.isLiteral && areLiteral es

end

def texts : Strings :=
  match e.form with
  | .list | .tuple =>
    if e.isLiteral then e.parts.filterMap fun
      | mk (.text s) _ _ => some s
      | _ => none
    else []
  | _ => []

end Expr

structure Alias where
  name : String
  newName : Option String

inductive Statement where
  | function (name : String) (waiting : Bool) (range : Range)
  | type (name : String) (range : Range)
  | assign (targets : List Expr) (value : Expr)
  | annotated (target : Expr)
  | imports (names : List Alias) (range : Range)
  /-- An import from a module that is named from `level` packages above. -/
  | importsFrom (level : Nat) (module : String) (names : List Alias) (range : Range)
  | other

namespace Tree

variable (t : Tree)

def word : String := (t.first?.map nameOf).getD ""

def dotted : String := String.join (t.tokens.map nameOf)

def newName : Tree → Option String
  | list [_, n] => some n.word
  | _ => Option.none

def importAlias : Tree → Alias
  | node _ _ [name, renamed] => ⟨name.dotted, renamed.newName⟩
  | t => ⟨t.dotted, Option.none⟩

def importTargets : Tree → List Alias
  | node "from_targets" 0 (_ :: node _ _ [list ts] :: _) => ts.map importAlias
  | node "from_targets" 1 (node _ _ [list ts] :: _) => ts.map importAlias
  | _ => [⟨"*", Option.none⟩]

/-- How many packages up the points in front of a module lead. -/
def level : Nat := Number.total (t.tokens.map fun k => k.text.length)

def simpleStatement : Tree → Statement
  | node "simple_stmt" 0 [node "assignment" 0 (t :: _)] => .annotated t.expr
  | node "simple_stmt" 0 [node "assignment" 1 (t :: _)] => .annotated t.expr
  | node "simple_stmt" 0 [node "assignment" 2 [list ts, value, _]] => .assign (ts.map expr) value.expr
  | node "simple_stmt" 3 [_, node _ 0 [node "import_name" n [w, node _ _ [list ts]]]] =>
    .imports (ts.map importAlias) (node "import_name" n [w, list ts]).range
  | node "simple_stmt" 3 [_, node _ 1 [node "import_from" 0 [w, points, module, i, names]]] =>
    .importsFrom points.level module.dotted names.importTargets (node "import_from" 0 [w, points, module, i, names]).range
  | node "simple_stmt" 3 [_, node _ 1 [node "import_from" 1 [w, points, i, names]]] =>
    .importsFrom points.level "" names.importTargets (node "import_from" 1 [w, points, i, names]).range
  | _ => .other

def compoundStatement : Tree → Statement
  | node "compound" 0 [_, node "function" _ cs] =>
    match cs.getLast? with
    | some (node "plain_function" 1 (w :: n :: rest)) =>
      .function n.word false (node "plain_function" 1 (w :: n :: rest)).range
    | some (node "plain_function" 2 (a :: w :: n :: rest)) =>
      .function n.word true (node "plain_function" 2 (a :: w :: n :: rest)).range
    | _ => .other
  | node "compound" 2 [_, node "class_def" _ cs] =>
    match cs.getLast? with
    | some (node "plain_class" 1 (w :: n :: rest)) => .type n.word (node "plain_class" 1 (w :: n :: rest)).range
    | _ => .other
  | _ => .other

def statementsOf : Tree → List Statement
  | node "statement" 0 [t] => [t.compoundStatement]
  | node "statement" _ [node "simple_stmts" 0 (t :: _)] => [t.simpleStatement]
  | node "statement" _ [node "simple_stmts" _ (list ts :: _)] => ts.map simpleStatement
  | _ => []

def moduleStatements : Tree → List Statement
  | node "file" _ (node "statements" _ [list ts] :: _) => ts.flatMap statementsOf
  | _ => []

end Tree

def statements (text : String) : Except SyntaxError (List Statement) := (parseModule text).map Tree.moduleStatements

end PatchReview.Python

/-!
## What a Python module exports

The names that the statements of a module bind at its outermost level, with where they stand, and the names it
lists itself.
-/

namespace PatchReview.Python

structure Exports where
  names : List (String × Graph.Span) := []
  hasList : Bool := false
  listed : Strings := []
  makesNames : Bool := false

def Range.span (path : String) (r : Range) : Graph.Span :=
  ⟨path, r.start.line, r.start.column + 1, r.stop.line, r.stop.column + 1⟩

namespace Exports

variable (path : String) (x : Exports) (name : String)

def bind (r : Range) : Exports := { x with names := Fields.insert x.names name (r.span path) }

def assign (value : Expr) (x : Exports) (target : Expr) : Exports :=
  match target.form with
  | .name "__all__" => { x with hasList := true, listed := x.listed ++ value.texts }
  | .name id => x.bind path id target.range
  | _ => x

def firstPart : String := (cutAt "." name).headD ""

def add (s : Statement) : Exports :=
  match s with
  | .function name waiting r =>
    let x := if name == "__getattr__" && !waiting then { x with makesNames := true } else x
    x.bind path name r
  | .type name r => x.bind path name r
  | .assign targets value => targets.foldl (assign path value) x
  | .annotated target =>
    match target.form with
    | .name id => if id == "__all__" then x else x.bind path id target.range
    | _ => x
  | .imports names r => names.foldl (fun x a => x.bind path (a.newName.getD (firstPart a.name)) r) x
  | .importsFrom _ _ names r =>
    names.foldl (fun x a => if a.name == "*" then x else x.bind path (a.newName.getD a.name) r) x
  | .other => x

end Exports

def exportsOf (path text : String) : Except SyntaxError Exports := do
  return (← statements text).foldl (Exports.add path) {}

end PatchReview.Python
