import PatchReview.Python.Token
import PatchReview.Text.Naming

/-!
# Trees of Python text

A tree holds which alternative of which rule fits where. `Tree.expr` reads the expression a tree stands for.
-/

namespace PatchReview.Python

/-!
## Text literals

The pieces of a text token: the letters in front of it and what stands between its quotes. Escapes are replaced by the
characters they stand for; in a formatted text the expressions between braces are found and handed on.
-/

inductive Literal where
  | text (value : String)
  | bytes
  | composed
  deriving DecidableEq

inductive LiteralFlaw where
  | here (reason : String)
  | self (reason : String)
  | inside (e : SyntaxError)

structure TextToken where
  raw : Bool
  bytes : Bool
  formatted : Bool
  body : Chars
  /-- How many line feeds stand before the body; none do. -/
  line : Nat

def TextToken.of (t : Token) : TextToken :=
  let cs := t.text.toList
  let lead := (cs.takeWhile Char.isAlpha).map Char.toLower
  let rest := cs.drop lead.length
  let n := rest.length
  let threefold := match rest with
    | a :: b :: c :: _ => a == b && b == c && 6 ≤ n
    | _ => false
  let width := if threefold then 3 else 1
  ⟨lead.contains 'r', lead.contains 'b', lead.contains 'f', (rest.drop width).take (n - 2 * width), t.start.line⟩

namespace Escape

def simple? (c : Char) : Option Chars :=
  if c == '\n' then some []
  else if c == '\x27' || c == '"' then some [c]
  else (Text.escapedLetter? c).map ([·])

/-- How many places a character takes where errors are counted: one outside ASCII counts as its long escape. -/
def width (c : Char) : Nat := if c.toNat < 128 then 1 else 10

def widthOf (cs : Chars) : Nat := cs.foldl (fun n c => n + width c) 0

def fault (start stop : Nat) (reason : String) : LiteralFlaw :=
  let last := stop - 1
  if stop = start + 1 then
    .here s!"(unicode error) 'unicodeescape' codec can't decode byte 0x5c in position {start}: {reason}"
  else .here s!"(unicode error) 'unicodeescape' codec can't decode bytes in position {start}-{last}: {reason}"

def coded? : Char → Option (Nat × String)
  | 'x' => some (2, "truncated \\xXX escape")
  | 'u' => some (4, "truncated \\uXXXX escape")
  | 'U' => some (8, "truncated \\UXXXXXXXX escape")
  | _ => none

/-- Replaces the escapes of a text; `place` counts from its start. -/
def decode : Nat → Nat → Chars → Chars → Except LiteralFlaw Chars
  | 0, _, done, _ => .ok done.reverse
  | _ + 1, _, done, [] => .ok done.reverse
  | fuel + 1, place, done, '\\' :: c :: r =>
    match simple? c with
    | some out => decode fuel (place + 2) (out.reverse ++ done) r
    | none =>
      if Text.isOctal c then
        let ds := c :: (r.take 2).takeWhile Text.isOctal
        decode fuel (place + 1 + ds.length) (Char.ofNat (Text.valueIn 8 ds) :: done) (r.drop (ds.length - 1))
      else match coded? c with
      | some (count, reason) =>
        let ds := (r.take count).takeWhile Text.isHex
        if ds.length < count then .error (fault place (place + 2 + ds.length) reason)
        else
          let value := Text.hexValue ds
          if 0x10ffff < value then .error (fault place (place + 2 + count) "illegal Unicode character")
          else decode fuel (place + 2 + count) (Char.ofNat value :: done) (r.drop count)
      | none =>
        if c == 'N' then
          match r with
          | '\x7b' :: s =>
            let name := s.takeWhile (· != '\x7d')
            let stop := place + 3 + widthOf name
            match s.drop name.length with
            | [] => .error (fault place stop "malformed \\N character escape")
            | _ :: s =>
              if name.isEmpty then .error (fault place stop "malformed \\N character escape")
              else match Text.named? name with
              | some d => decode fuel (stop + 1) (d :: done) s
              | none => .error (fault place (stop + 1) "unknown Unicode character name")
          | _ => .error (fault place (place + 2) "malformed \\N character escape")
        else
          let shift := if c.toNat < 128 then 2 else 16
          decode fuel (place + shift) (c :: '\\' :: done) r
  | fuel + 1, place, done, c :: r => decode fuel (place + width c) (c :: done) r

def checkBytes : Nat → Nat → Chars → Except LiteralFlaw Unit
  | 0, _, _ => .ok ()
  | _ + 1, _, [] => .ok ()
  | fuel + 1, place, '\\' :: 'x' :: r =>
    if 2 ≤ ((r.take 2).takeWhile Text.isHex).length then checkBytes fuel (place + 4) (r.drop 2)
    else .error (.here s!"(value error) invalid \\x escape at position {place}")
  | fuel + 1, place, '\\' :: _ :: r => checkBytes fuel (place + 2) r
  | fuel + 1, place, _ :: r => checkBytes fuel (place + 1) r

end Escape

def decoded (raw : Bool) (cs : Chars) : Except LiteralFlaw Chars :=
  if raw then .ok cs else Escape.decode (cs.length + 1) 0 [] cs

namespace Formatted

structure Scan where
  taken : Chars := []
  quote : Option (Char × Bool) := none
  brackets : Chars := []

def flaw (reason : String) : LiteralFlaw := .here reason

def missingBrace : LiteralFlaw := flaw "f-string: expecting '\x7d'"

/-- Finds the end of an expression: the expression and the rest from the character that ends it. -/
def expression : Nat → Scan → Chars → Except LiteralFlaw (Chars × Chars)
  | 0, _, _ => .error missingBrace
  | _ + 1, s, [] =>
    if s.quote.isSome then .error (flaw "f-string: unterminated string")
    else match s.brackets with
    | b :: _ => .error (flaw s!"f-string: unmatched '{b}'")
    | [] => .error missingBrace
  | fuel + 1, s, c :: r =>
    let take (s : Scan) : Except LiteralFlaw (Chars × Chars) :=
      expression fuel { s with taken := c :: s.taken } r
    if c == '\\' then .error (flaw "f-string expression part cannot include a backslash")
    else match s.quote with
    | some (q, threefold) =>
      if c != q then take s
      else if !threefold then take { s with quote := none }
      else match Text.dropLead? [q, q] r with
      | some t => expression fuel { s with taken := q :: q :: q :: s.taken, quote := none } t
      | none => take s
    | none =>
      if c == '"' || c == '\x27' then
        match Text.dropLead? [c, c] r with
        | some t => expression fuel { s with taken := c :: c :: c :: s.taken, quote := some (c, true) } t
        | none => take { s with quote := some (c, false) }
      else if "[(\x7b".toList.contains c then
        if 200 ≤ s.brackets.length then .error (flaw "f-string: too many nested parenthesis")
        else take { s with brackets := c :: s.brackets }
      else if c == '#' then .error (flaw "f-string expression part cannot include '#'")
      else if s.brackets.isEmpty && "!:\x7d=><".toList.contains c then
        if r.head? == some '=' && "!=<>".toList.contains c then
          expression fuel { s with taken := '=' :: c :: s.taken } (r.drop 1)
        else if c == '>' || c == '<' then take s
        else .ok (s.taken.reverse, c :: r)
      else match [(')', '('), (']', '['), ('\x7d', '\x7b')].lookup c, s.brackets with
      | none, _ => take s
      | some _, [] => .error (flaw s!"f-string: unmatched '{c}'")
      | some o, b :: bs =>
        if b == o then take { s with brackets := bs }
        else .error (flaw s!"f-string: closing parenthesis '{c}' does not match opening parenthesis '{b}'")

def isGap (c : Char) : Bool := c == ' ' || c == '\t' || c == '\n' || c == '\x0c'

variable (raw : Bool) (level : Nat) in
/-- Finds the literal text up to the next expression: the text, the rest, and whether a doubled brace ended it. -/
def literal : Nat → Chars → Chars → Except LiteralFlaw (Chars × Chars × Bool)
  | 0, done, cs => .ok (done.reverse, cs, false)
  | _ + 1, done, [] => .ok (done.reverse, [], false)
  | fuel + 1, done, c :: r =>
    let brace (done : Chars) (c : Char) (r : Chars) : Except LiteralFlaw (Chars × Chars × Bool) :=
      if level = 0 && r.head? == some c then .ok ((c :: done).reverse, r.drop 1, true)
      else if level = 0 && c == '\x7d' then .error (flaw "f-string: single '\x7d' is not allowed")
      else .ok (done.reverse, c :: r, false)
    if !raw && c == '\\' then
      match r with
      | [] => literal fuel (c :: done) r
      | 'N' :: '\x7b' :: t =>
        let name := t.takeWhile (· != '\x7d')
        let closed := (t.drop name.length).take 1
        literal fuel (closed.reverse ++ name.reverse ++ ['\x7b', 'N', '\\'] ++ done)
          (t.drop (name.length + 1))
      | 'N' :: d :: t => literal fuel (d :: 'N' :: '\\' :: done) t
      | d :: t =>
        if d == '\x7b' || d == '\x7d' then brace ('\\' :: done) d t
        else literal fuel (d :: '\\' :: done) t
    else if c == '\x7b' || c == '\x7d' then brace done c r
    else literal fuel (c :: done) r

/-- Reads a formatted text, with `compile` for its expressions. At level 0 it ends with the literal, deeper at a closing
brace. The rest is what follows. -/
def check (raw : Bool) (compile : Chars → Chars → Except LiteralFlaw Unit) :
    Nat → Nat → Chars → Except LiteralFlaw Chars
  | 0, _, cs => .ok cs
  | fuel + 1, level, cs => do
    let (text, rest, doubled) ← literal raw level (cs.length + 1) [] cs
    let _ ← decoded raw text
    if doubled then check raw compile fuel level rest
    else match rest with
    | [] => if level = 0 then return [] else throw missingBrace
    | '\x7b' :: r =>
      if 2 ≤ level then throw (flaw "f-string: expressions nested too deeply")
      let (code, after) ← expression (r.length + 1) {} r
      if code.all isGap then
        for c in after.head? do
          if "!:=".toList.contains c then throw (flaw s!"f-string: expression required before '{c}'")
        throw (flaw "f-string: empty expression not allowed")
      compile code r
      let after ← match after with
        | '=' :: t =>
          match t.dropWhile fun c => isGap c || c == '\r' || c == '\x0b' with
          | [] => throw missingBrace
          | t => pure t
        | t => pure t
      let after ← match after with
        | '!' :: [] => throw missingBrace
        | '!' :: c :: t =>
          if "sra".toList.contains c then pure t
          else throw (flaw "f-string: invalid conversion character: expected 's', 'r', or 'a'")
        | t => pure t
      let after ← match after with
        | ':' :: [] => throw missingBrace
        | ':' :: t => check raw compile fuel (level + 1) t
        | t => pure t
      match after with
      | '\x7d' :: t => check raw compile fuel level t
      | _ => throw missingBrace
    | _ => return rest

end Formatted

/-- The literal of neighbouring text tokens. `compile` checks an expression of a formatted text, which starts at a
line. -/
def literalOf (compile : Chars → Nat → Except LiteralFlaw Unit) (ts : List Token) :
    Except (Option Nat × LiteralFlaw) Literal := do
  let mut value : Literal := .text ""
  let mut first := true
  for t in ts do
    let x := TextToken.of t
    let wrap {α : Type} (r : Except LiteralFlaw α) : Except (Option Nat × LiteralFlaw) α :=
      r.mapError (some t.start.line, ·)
    let here ← wrap (if x.formatted then .ok (Literal.composed)
      else if x.bytes then
        if x.body.all (·.toNat < 128) then
          if x.raw then .ok .bytes else (Escape.checkBytes (x.body.length + 1) 0 x.body).map fun _ => .bytes
        else .error (.self "bytes can only contain ASCII literal characters")
      else (decoded x.raw x.body).map fun cs => .text (String.ofList cs))
    if !first && (value == .bytes) != (here == .bytes) then
      throw (none, .here "cannot mix bytes and nonbytes literals")
    if x.formatted then
      let total := x.body.length
      let lineOf (rest : Chars) : Nat := x.line + ((x.body.take (total - rest.length)).filter (· == '\n')).length
      let _ ← wrap (Formatted.check x.raw (fun code rest => compile code (lineOf rest)) (2 * total + 2) 0 x.body)
    value := match value, here with
      | .composed, _ => .composed
      | .text a, .text b => .text (a ++ b)
      | _, h => h
    first := false
  return value

structure Range where
  start : Position
  stop : Position

inductive Tree where
  | leaf (t : Token)
  | node (rule : String) (alternative : Nat) (children : List Tree)
  | list (ts : List Tree)
  | none

namespace Tree

mutual

def tokensTo (ts : List Token) : Tree → List Token
  | leaf t => t :: ts
  | node _ _ cs => tokensToAll ts cs
  | list cs => tokensToAll ts cs
  | none => ts

def tokensToAll (ts : List Token) : List Tree → List Token
  | [] => ts
  | c :: cs => c.tokensTo (tokensToAll ts cs)

end

def tokens (t : Tree) : List Token := t.tokensTo []

mutual

def first? : Tree → Option Token
  | leaf t => some t
  | node _ _ cs => firstOf? cs
  | list cs => firstOf? cs
  | none => Option.none

def firstOf? : List Tree → Option Token
  | [] => Option.none
  | c :: cs => c.first? <|> firstOf? cs

end

mutual

def last? : Tree → Option Token
  | leaf t =>
    match t.kind with
    | .newline | .indent | .dedent | .finish => Option.none
    | _ => some t
  | node _ _ cs => lastOf? cs
  | list cs => lastOf? cs
  | none => Option.none

def lastOf? : List Tree → Option Token
  | [] => Option.none
  | c :: cs => lastOf? cs <|> c.last?

end

def range (t : Tree) : Range := ⟨(t.first?.map (·.start)).getD {}, (t.last?.map (·.stop)).getD {}⟩

end Tree

def nameOf (t : Token) : String := String.ofList (Text.normalForm t.text.toList)

inductive Form where
  | name (id : String)
  | text (value : String)
  | bytes
  | composed
  | number (imaginary : Bool)
  /-- A word for truth, falsehood or nothing, or the three points. -/
  | constant (what : String)
  | list
  | tuple
  | set
  /-- Keys and values in turn; for a mapping that is poured in there is no key. -/
  | dict
  | starred
  | signed
  | sum
  | attribute
  | element
  /-- A call; whether it has no arguments. -/
  | call (bare : Bool)
  /-- A comparison, of which the first operand is kept; whether it asks for membership. -/
  | compare (membership : Bool)
  | other (what : String)

/-- An expression: its form, where it stands, and the parts that matter. -/
inductive Expr where
  | mk (form : Form) (range : Range) (parts : List Expr)

namespace Expr

def form : Expr → Form
  | mk f _ _ => f

def range : Expr → Range
  | mk _ r _ => r

def parts : Expr → List Expr
  | mk _ _ ps => ps

def title (e : Expr) : String :=
  match e.form with
  | .name _ => "name"
  | .text _ | .bytes | .number _ => "literal"
  | .composed => "f-string expression"
  | .constant what => what
  | .list => "list"
  | .tuple => "tuple"
  | .set => "set display"
  | .dict => "dict literal"
  | .starred => "starred"
  | .signed | .sum => "expression"
  | .attribute => "attribute"
  | .element => "subscript"
  | .call _ => "function call"
  | .compare _ => "comparison"
  | .other what => what

end Expr

namespace Tree

def literalForm (ts : List Token) : Form :=
  match literalOf (fun _ _ => .ok ()) ts with
  | .ok (.text s) => .text s
  | .ok .bytes => .bytes
  | _ => .composed

def isImaginary (t : Token) : Bool := finishesWith "j" t.text || finishesWith "J" t.text

def tokenForm (t : Token) : Form :=
  match t.kind with
  | .name => .name (nameOf t)
  | .number => .number (isImaginary t)
  | _ => .constant t.text

/-- Rules of which every alternative but the last has an operator. -/
def operatorRules : Strings :=
  ["or_test", "and_test", "not_test", "bit_or", "bit_xor", "bit_and", "shift", "term", "power"]

/-- What stands for a tree whose parts have been read. `whole` is the tree itself. -/
def build (whole : Tree) (rule : String) (alternative : Nat) (children : List Tree) (es : List Expr) : Expr :=
  let here (f : Form) (ps : List Expr) := .mk f whole.range ps
  let through (_ : Unit) := match es with
    | [e] => e
    | es => here (.other "expression") es
  match rule, alternative with
  | "strings", _ => here (literalForm whole.tokens) []
  | "atom", 1 => here (.constant "True") []
  | "atom", 2 => here (.constant "False") []
  | "atom", 3 => here (.constant "None") []
  | "atom", 9 => here (.constant "ellipsis") []
  | "list", _ => here .list es
  | "tuple", _ => here .tuple es
  | "set", _ => here .set es
  | "dict", _ => here .dict es
  | "entry", _ | "args", _ => here (.other "expression") []
  | "listcomp", _ => here (.other "list comprehension") []
  | "setcomp", _ => here (.other "set comprehension") []
  | "dictcomp", _ => here (.other "dict comprehension") []
  | "genexp", _ => here (.other "generator expression") []
  | "star_exprs", 2 | "exprs", 2 => through ()
  | "star_exprs", _ | "exprs", _ => here .tuple es
  | "star_expr", 0 | "item", 0 | "starred", _ | "target", 0 => here .starred es
  | "targets", 0 => through ()
  | "targets", _ => here .tuple es
  | "target_atom", 2 | "del_t_atom", 2 => here .tuple es
  | "target_atom", 3 | "del_t_atom", 3 => here .list es
  | "walrus", _ => here (.other "named expression") []
  | "expr", 2 | "unwary_expr", 0 => here (.other "conditional expression") []
  | "lambdef", _ => here (.other "lambda") []
  | "yield_expr", _ => here (.other "yield expression") []
  | "comparison", 0 =>
    let membership := match children with
      | [_, .list (.node _ 7 _ :: _)] => true
      | _ => false
    here (.compare membership) es
  | "sum", 0 | "sum", 1 => here .sum es
  | "factor", 0 | "factor", 1 => here .signed es
  | "factor", 2 => here (.other "expression") []
  | "awaited", 0 => here (.other "await expression") []
  | "primary", 0 | "owner", 0 => here .attribute []
  | "primary", 1 | "owner", 2 => here (.call false) []
  | "primary", 2 | "owner", 3 =>
    let bare := match children with
      | _ :: _ :: .none :: _ => true
      | _ => false
    here (.call bare) (es.take 1)
  | "primary", 3 | "owner", 1 => here .element []
  | "plain_target", 0 | "place", 0 | "del_target", 0 => here .attribute []
  | "plain_target", 1 | "place", 1 | "del_target", 1 => here .element []
  | rule, _ =>
    if operatorRules.contains rule && es.length != 1 then here (.other "expression") es
    else if rule == "not_test" && alternative = 0 then here (.other "expression") es
    else through ()

mutual

/-- The expressions a tree stands for: none for words and signs, several for trees in a row. -/
def exprs : Tree → List Expr
  | leaf t =>
    match t.kind with
    | .name | .number => [.mk (tokenForm t) ⟨t.start, t.stop⟩ []]
    | _ => []
  | node rule alternative children =>
    let es := exprsAll children
    match rule, alternative with
    | "items", _ | "entries", _ | "entry", 1 | "pair", _
    | "tuple_targets", _ | "list_targets", _ | "del_targets", _ => es
    | _, _ => [build (node rule alternative children) rule alternative children es]
  | list ts => exprsAll ts
  | none => []

def exprsAll : List Tree → List Expr
  | [] => []
  | t :: ts => t.exprs ++ exprsAll ts

end

def expr (t : Tree) : Expr :=
  match t.exprs with
  | [e] => e
  | es => .mk (.other "expression") t.range es

end Tree

end PatchReview.Python
