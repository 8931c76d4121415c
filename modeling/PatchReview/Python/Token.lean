import PatchReview.Text.Case

/-!
# Tokens of Python text

Text is cut into names, numbers, texts and operators; the ends of logical lines and changes of indentation are tokens
of their own. Columns count bytes. Cutting goes on until the text ends or holds something that is no token.
-/

namespace PatchReview.Python

open Char Text

structure Position where
  line : Nat := 1
  column : Nat := 0

def Position.after (p : Position) (cs : Chars) : Position :=
  cs.foldl (fun p c => if c == '\n' then ⟨p.line + 1, 0⟩ else { p with column := p.column + c.utf8Size }) p

inductive ErrorKind where
  | form
  | indentation
  | tabs
  | depth
  | nesting
  deriving DecidableEq

structure SyntaxError where
  reason : String
  line : Option Nat
  kind : ErrorKind := .form

def SyntaxError.message (e : SyntaxError) : String :=
  match e.line with
  | some n => s!"{e.reason} (<unknown>, line {n})"
  | none => e.reason

inductive TokenKind where
  | name
  | keyword
  | number
  | text
  | operator
  | newline
  | indent
  | dedent
  | finish
  deriving DecidableEq

structure Token where
  kind : TokenKind
  text : String
  start : Position
  stop : Position
  depth : Nat := 0

inductive Halt where
  | finished
  | flaw (e : SyntaxError)
  /-- The text ends inside a bracket or after a continued line. -/
  | ended (line : Nat)
  /-- Something is wrong about how lines stand to each other. -/
  | layout (e : SyntaxError)

/-- The tokens of a text, why they end, and the brackets that are open there with their lines, innermost first. -/
structure Tokens where
  tokens : Array Token
  halt : Halt
  brackets : List (Char × Nat)

structure Lexer where
  rest : Chars
  here : Position := {}
  tokens : List Token := []
  /-- The indentations that are open, innermost first, with tabs as eight columns and as one. -/
  indents : List (Nat × Nat) := [(0, 0)]
  brackets : List (Char × Nat) := []
  fresh : Bool := true

/-- A character that may be part of a name, before names are checked. -/
def isNameLike (c : Char) : Bool := c.isAlphanum || c == '_' || 127 < c.toNat

namespace Numeral

/-- The rest after decimal digits with single underscores between them; `none` after an underscore without a digit. -/
def decimalTail : Chars → Option Chars
  | '_' :: d :: r => if d.isDigit then decimalTail r else none
  | ['_'] => none
  | c :: r => if c.isDigit then decimalTail r else some (c :: r)
  | [] => some []

/-- The rest after zeros; `none` after an underscore without a digit. -/
def zerosTail : Chars → Option Chars
  | '_' :: '0' :: r => zerosTail r
  | '_' :: d :: r => if d.isDigit then some (d :: r) else none
  | ['_'] => none
  | '0' :: r => zerosTail r
  | r => some r

/-- The rest after the digits of another base; the error holds what stands where a digit has to. `due` says that a
digit has to come. -/
def radixTail (p : Char → Bool) : Bool → Chars → Except (Option Char) Chars
  | true, [] => .error none
  | false, [] => .ok []
  | true, c :: r => if p c then radixTail p false r else .error (some c)
  | false, '_' :: r => radixTail p true r
  | false, c :: r => if p c then radixTail p false r else .ok (c :: r)

/-- Words that may follow a number at once, when nothing follows them. -/
def followers : List Chars := ["and", "else", "for", "or", "not"].map String.toList

/-- Words that may follow a number at once. -/
def shortFollowers : List Chars := ["if", "in", "is"].map String.toList

variable (r : Chars) (kind : String)

def ends (r : Chars) : Except String Chars :=
  let whole := followers.any fun w =>
    match dropLead? w r with
    | some t => !t.head?.any isNameLike
    | none => false
  if whole || shortFollowers.any fun w => (dropLead? w r).isSome then .ok r
  else if r.head?.any fun c => c.isAlphanum || c == '_' then .error s!"invalid {kind} literal"
  else .ok r

def decimals : Except String Chars :=
  match decimalTail r with
  | some r => .ok r
  | none => .error "invalid decimal literal"

def exponent : Except String Chars := do
  let finish (r : Chars) : Except String Chars :=
    match r with
    | c :: t => if c.toLower == 'j' then ends "imaginary" t else ends "decimal" r
    | [] => .ok []
  match r with
  | c :: t =>
    if c.toLower == 'e' then
      match t with
      | s :: u =>
        if s == '+' || s == '-' then
          if u.head?.any isDigit then finish (← decimals u) else .error "invalid decimal literal"
        else if s.isDigit then finish (← decimals t)
        else ends "decimal" r
      | [] => ends "decimal" r
    else finish r
  | [] => .ok []

def fraction : Except String Chars := do
  exponent (← if r.head?.any isDigit then decimals r else .ok r)

def radix (p : Char → Bool) (r : Chars) : Except String Chars := do
  let start := match r with
    | '_' :: t => t
    | r => r
  let bad (c : Char) : String :=
    if c.isDigit && kind != "hexadecimal" then s!"invalid digit '{c}' in {kind} literal"
    else s!"invalid {kind} literal"
  match radixTail p true start with
  | .error (some c) => .error (bad c)
  | .error none => .error s!"invalid {kind} literal"
  | .ok rest =>
    match rest with
    | c :: _ => if c.isDigit then .error (bad c) else ends kind rest
    | [] => .ok []

def leadingZeros : String :=
  "leading zeros in decimal integer literals are not permitted; use an 0o prefix for octal integers"

def tail (cs : Chars) : Except String Chars := do
  match cs with
  | '.' :: r => fraction r
  | '0' :: x :: r =>
    match x.toLower with
    | 'x' => radix "hexadecimal" isHex r
    | 'o' => radix "octal" isOctal r
    | 'b' => radix "binary" (fun c => c == '0' || c == '1') r
    | _ =>
      match zerosTail (x :: r) with
      | none => .error "invalid decimal literal"
      | some t =>
        let nonzero := t.head?.any isDigit
        let t ← if nonzero then decimals t else .ok t
        match t with
        | c :: u =>
          if c == '.' then fraction u
          else if c.toLower == 'e' then exponent t
          else if c.toLower == 'j' then ends "imaginary" u
          else if nonzero then .error leadingZeros
          else ends "decimal" t
        | [] => if nonzero then .error leadingZeros else .ok []
  | r =>
    match ← decimals r with
    | '.' :: t => fraction t
    | t => exponent t

end Numeral

/-- How many characters a text on one line has up to its closing quote, counted from `n`; the error counts those before
the end of the line or of everything. -/
def shortLength (q : Char) : Nat → Chars → Except Nat Nat
  | n, [] => .error n
  | n, ['\\'] => .error (n + 1)
  | n, '\\' :: _ :: r => shortLength q (n + 2) r
  | n, c :: r => if c == q then .ok (n + 1) else if c == '\n' then .error n else shortLength q (n + 1) r

/-- How many characters a text has up to its closing threefold quotes, counted from `n`; the error counts those before the
end of everything. -/
def longLength (q : Char) : Nat → Chars → Except Nat Nat
  | n, [] => .error n
  | n, ['\\'] => .error (n + 1)
  | n, '\\' :: _ :: r => longLength q (n + 2) r
  | n, a :: b :: c :: r => if a == q && b == q && c == q then .ok (n + 3) else longLength q (n + 1) (b :: c :: r)
  | n, _ :: r => longLength q (n + 1) r

/-- How many letters stand in front of a quote to say what kind of text it opens, and the rest from the quote on. `seen`
holds the letters so far in lower case. -/
def textLead? (seen : Chars) : Chars → Option (Nat × Chars)
  | [] => none
  | c :: r =>
    if c == '"' || c == '\x27' then some (seen.length, c :: r)
    else
      let l := c.toLower
      -- the letters that may not stand before it
      let foes := match l with
        | 'b' | 'f' => "bfu"
        | 'u' => "bfru"
        | _ => "ru"
      if "bfru".toList.contains l && !seen.any foes.toList.contains then textLead? (l :: seen) r else none

def longOperators : List Chars :=
  ["**=", "//=", "<<=", ">>=", "...", "!=", "%=", "&=", "**", "*=", "+=", "-=", "->", "//", "/=", ":=", "<<", "<=",
    "<>", "==", ">=", ">>", "@=", "^=", "|="].map String.toList

def codePoint (c : Char) : String := padLeft '0' 4 (String.ofList (Nat.toDigits 16 c.toNat)).toUpper

def keywords : List String := [
  "False", "None", "True", "and", "as", "assert", "async", "await", "break", "class", "continue", "def", "del",
  "elif", "else", "except", "finally", "for", "from", "global", "if", "import", "in", "is", "lambda", "nonlocal", "not",
  "or", "pass", "raise", "return", "try", "while", "with", "yield"]

namespace Lexer

/-- The line that has been read last: at the end of the text the one before. -/
def line (x : Lexer) : Nat := if x.rest.isEmpty then x.here.line - 1 else x.here.line

def flaw (x : Lexer) (reason : String) : Halt := .flaw { reason, line := some x.line }

def layout (x : Lexer) (kind : ErrorKind) (reason : String) : Halt := .layout ⟨reason, some x.line, kind⟩

variable (x : Lexer) (c : Char) (kind : TokenKind) (n : Nat) (r : Chars)

def badContinuation : Halt := x.layout .form "unexpected character after line continuation character"

def skip : Lexer := { x with rest := x.rest.drop n, here := x.here.after (x.rest.take n) }

def add : Lexer :=
  let cs := x.rest.take n
  let stop := x.here.after cs
  { x with
    rest := x.rest.drop n, here := stop
    tokens := ⟨kind, String.ofList cs, x.here, stop, x.brackets.length⟩ :: x.tokens }

def mark : Lexer :=
  let p : Position := ⟨x.line, x.here.column⟩
  { x with tokens := ⟨kind, "", p, p, x.brackets.length⟩ :: x.tokens }

/-- The width of the white space at the start of a line, with tabs as eight columns and as one, and the width at the
first continued line in it; an error when a backslash is misplaced. -/
def margin : Nat → Lexer → Nat → Nat → Nat → Except Halt (Lexer × Nat × Nat × Nat)
  | 0, x, col, alt, cont => .ok (x, col, alt, cont)
  | fuel + 1, x, col, alt, cont =>
    match x.rest with
    | ' ' :: _ => margin fuel (x.skip 1) (col + 1) (alt + 1) cont
    | '\t' :: _ => margin fuel (x.skip 1) ((col / 8 + 1) * 8) (alt + 1) cont
    | '\x0c' :: _ => margin fuel (x.skip 1) 0 0 cont
    | '\\' :: '\n' :: r =>
      let y := x.skip 2
      if r.isEmpty then .error (.ended y.line)
      else margin fuel y col alt (if cont = 0 then col else cont)
    | '\\' :: _ => .error x.badContinuation
    | _ => .ok (x, col, alt, cont)

def tabError : Halt := x.layout .tabs "inconsistent use of tabs and spaces in indentation"

def close (col : Nat) : Nat → Lexer → Lexer
  | 0, x => x
  | fuel + 1, x =>
    match x.indents with
    | (c, _) :: (d :: ds) => if col < c then close col fuel ({ x with indents := d :: ds }.mark .dedent) else x
    | _ => x

def indentTo (col alt : Nat) : Except Halt Lexer :=
  let (top, topAlt) := x.indents.headD (0, 0)
  if col = top then
    if alt = topAlt then .ok x else .error (tabError x)
  else if top < col then
    if 100 ≤ x.indents.length then .error (x.layout .indentation "too many levels of indentation")
    else if alt ≤ topAlt then .error (tabError x)
    else .ok ({ x with indents := (col, alt) :: x.indents }.mark .indent)
  else
    let y := x.close col x.indents.length
    let (top, topAlt) := y.indents.headD (0, 0)
    if col ≠ top then .error (x.layout .indentation "unindent does not match any outer indentation level")
    else if alt ≠ topAlt then .error (tabError x)
    else .ok y

/-- Starts a line. The flag says that the line holds nothing. `fuel` bounds the white space. -/
def startLine (fuel : Nat) (x : Lexer) : Except Halt (Lexer × Bool) := do
  let x := { x with fresh := false }
  let (x, col, alt, cont) ← margin fuel x 0 0 0
  match x.rest with
  | '#' :: _ | '\n' :: _ => return (x, true)
  | _ =>
    if x.brackets.isEmpty then
      return (← x.indentTo (if cont = 0 then col else cont) (if cont = 0 then alt else cont), false)
    else return (x, false)

def notPrintable : Halt := x.flaw s!"invalid non-printable character U+{codePoint c}"

def badCharacter? : Chars → Option Char
  | [] => none
  | c :: cs => if Text.isIdentifierStart c then cs.find? (!Text.isIdentifierPart ·) else some c

def takeName : Except Halt Lexer :=
  let name := x.rest.takeWhile isNameLike
  match badCharacter? name with
  | none => .ok (x.add (if keywords.contains (String.ofList name) then .keyword else .name) name.length)
  | some c =>
    if Text.isPrintable c then .error (x.flaw s!"invalid character '{c}' (U+{codePoint c})")
    else .error (x.notPrintable c)

/-- Takes a text, whose quote is at the start of `r`, after `n` letters. -/
def takeText : Except Halt Lexer :=
  let taken (what : String) : Except Nat Nat → Except Halt Lexer
    | .ok n => .ok (x.add .text n)
    | .error n => .error (x.flaw s!"unterminated {what} literal (detected at line {(x.skip n).line})")
  match r with
  | q :: a :: b :: t =>
    if a == q && b == q then taken "triple-quoted string" (longLength q (n + 3) t)
    else taken "string" (shortLength q (n + 1) (a :: b :: t))
  | q :: t => taken "string" (shortLength q (n + 1) t)
  | [] => .ok x

def takeOperator : Except Halt Lexer :=
  match longOperators.find? fun o => (Text.dropLead? o x.rest).isSome with
  | some o => .ok (x.add .operator o.length)
  | none =>
    if "([\x7b".toList.contains c then
      if 200 ≤ x.brackets.length then .error (x.flaw "too many nested parentheses")
      else .ok ({ x with brackets := (c, x.here.line) :: x.brackets }.add .operator 1)
    else if ")]\x7d".toList.contains c then
      match x.brackets with
      | [] => .error (x.flaw s!"unmatched '{c}'")
      | (o, line) :: bs =>
        if [('(', ')'), ('[', ']'), ('\x7b', '\x7d')].contains (o, c) then
          .ok ({ x with brackets := bs }.add .operator 1)
        else
          let place := if line = x.here.line then "" else s!" on line {line}"
          .error (x.flaw s!"closing parenthesis '{c}' does not match opening parenthesis '{o}'{place}")
    else if isPrintable c then .ok (x.add .operator 1)
    else .error (x.notPrintable c)

def takeToken : Except Halt Lexer :=
  match textLead? [] x.rest with
  | some (n, t) => x.takeText n t
  | none =>
    if isNameLike c && !c.isDigit then x.takeName
    else if c.isDigit || (c == '.' && r.head?.any isDigit) then
      let near := x.rest.takeWhile fun c => isNameLike c || c == '.' || c == '+' || c == '-'
      match Numeral.tail near with
      | .ok t => .ok (x.add .number (near.length - t.length))
      | .error e => .error (x.flaw e)
    else x.takeOperator c

def toLineEnd (cs : Chars) : Nat := (cs.takeWhile (· != '\n')).length

def run : Nat → Lexer → Lexer × Halt
  | 0, x => (x, .finished)
  | fuel + 1, x =>
    if x.fresh then
      match x.startLine fuel with
      | .error h => (x, h)
      | .ok (y, true) => run fuel { y.skip (toLineEnd y.rest + 1) with fresh := true }
      | .ok (y, false) => run fuel y
    else
      match x.rest with
      | [] => if x.brackets.isEmpty then (x.mark .finish, .finished) else (x, .ended x.line)
      | ' ' :: _ | '\t' :: _ | '\x0c' :: _ => run fuel (x.skip 1)
      | '#' :: r => run fuel (x.skip (toLineEnd r + 1))
      | '\n' :: _ =>
        let y := if x.brackets.isEmpty then x.mark .newline else x
        run fuel { y.skip 1 with fresh := true }
      | '\\' :: '\n' :: r =>
        let y := x.skip 2
        if r.isEmpty then (y, .ended y.line) else run fuel y
      | '\\' :: _ => (x, x.badContinuation)
      | c :: r =>
        match x.takeToken c r with
        | .ok y => run fuel y
        | .error h => (x, h)

end Lexer

/-- The text with line feeds for line ends and one at its end. A carriage return and a line feed at the end are two. -/
def completed (s : Chars) : Chars :=
  unifyFeeds s ++ match s.reverse with
    | '\n' :: '\r' :: _ => ['\n']
    | '\n' :: _ | '\r' :: _ => []
    | _ => ['\n']

def tokensOf (s : Chars) (line : Nat) : Tokens :=
  let s := completed s
  let (x, halt) := Lexer.run (2 * s.length + 2) { rest := s, here := ⟨line, 0⟩ }
  ⟨x.tokens.reverse.toArray, halt, x.brackets⟩

end PatchReview.Python
