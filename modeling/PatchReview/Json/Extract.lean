import PatchReview.Json.Basic
import PatchReview.Number.Real

/-!
# Reading JSON text

A reader over the characters that are left and their position. It takes the standard grammar and the
words `NaN`, `Infinity` and `-Infinity`; of members with one key the last value wins, in the place of the
first. A failure names what was expected and the position.
-/

namespace PatchReview.Json

inductive Cause where
  | form
  | digits
  | depth
  deriving DecidableEq

/-- Why a text is not read as a JSON document, and where. -/
structure ReadError where
  reason : String
  document : Chars
  position : Nat
  cause : Cause := .form

variable (e : ReadError)

def ReadError.line : Nat := (e.document.take e.position).count '\n' + 1

def ReadError.column : Nat := ((e.document.take e.position).reverse.takeWhile (· != '\n')).length + 1

def ReadError.message : String :=
  match e.cause with
  | .form => s!"{e.reason}: line {e.line} column {e.column} (char {e.position})"
  | .digits | .depth => e.reason

def ReadError.isForm : Bool := e.cause == .form

def depthLimit : Nat := 985

namespace Reader

structure Cursor where
  rest : Chars
  position : Nat

structure Failure where
  reason : String
  position : Nat
  cause : Cause := .form

abbrev Step := Except Failure

variable (s : Chars) (c : Char) (p : Nat) {α : Type}

def failAt (reason : String) (position : Nat) : Step α := .error ⟨reason, position, .form⟩

def isSpace : Bool := c == ' ' || c == '\t' || c == '\n' || c == '\r'

def skipSpace (s : Chars) (p : Nat) : Cursor :=
  match s with
  | [] => ⟨[], p⟩
  | c :: r => if isSpace c then skipSpace r (p + 1) else ⟨c :: r, p⟩

def hex4? : Option (Nat × Chars) :=
  let ds := (s.take 4).takeWhile Text.isHex
  if ds.length == 4 then some (Text.hexValue ds, s.drop 4) else none

def escape? : Option Char :=
  if c == '"' || c == '/' then some c
  else if c == 'a' || c == 'v' then none
  else Text.escapedLetter? c

/-- A character for a code unit, which may be one of a pair that stands alone. -/
def unitChar (n : Nat) : Char := if 0xD800 ≤ n ∧ n < 0xE000 then Text.unpaired n else Char.ofNat n

/-- Reads a four-digit escape whose digits start at `s`, position `p`; a high surrogate takes a low one
after it. -/
def readUnit : Step (Char × Chars × Nat) :=
  let bad := "Invalid \\uXXXX escape"
  if s.length ≤ 4 then failAt bad (p - 1)
  else match hex4? s with
    | none => failAt bad (p - 1)
    | some (n, r) =>
      if 0xD800 ≤ n ∧ n < 0xDC00 ∧ 6 < r.length then
        match r with
        | '\\' :: 'u' :: r' =>
          match hex4? r' with
          | none => failAt bad (p + 5)
          | some (m, r'') =>
            if 0xDC00 ≤ m ∧ m < 0xE000 then
              .ok (Char.ofNat (0x10000 + (n - 0xD800) * 0x400 + (m - 0xDC00)), r'', p + 10)
            else .ok (unitChar n, r, p + 4)
        | _ => .ok (unitChar n, r, p + 4)
      else .ok (unitChar n, r, p + 4)

/-- Reads the rest of a string whose opening quote is at `start`. The fuel bounds the characters read. -/
def readText (start : Nat) : Nat → Chars → Nat → Chars → Step (String × Cursor)
  | 0, _, _, _ => failAt "Unterminated string starting at" start
  | fuel + 1, s, p, acc =>
    match s with
    | [] => failAt "Unterminated string starting at" start
    | '"' :: r => .ok (String.ofList acc.reverse, ⟨r, p + 1⟩)
    | '\\' :: r =>
      match r with
      | [] => failAt "Unterminated string starting at" start
      | 'u' :: r' =>
        match readUnit r' (p + 2) with
        | .error e => .error e
        | .ok (c, r'', q) => readText start fuel r'' q (c :: acc)
      | c :: r' =>
        match escape? c with
        | none => failAt "Invalid \\escape" p
        | some d => readText start fuel r' (p + 2) (d :: acc)
    | c :: r =>
      if c.toNat ≤ 0x1f then failAt "Invalid control character at" p
      else readText start fuel r (p + 1) (c :: acc)

def isDigit : Bool := decide (48 ≤ c.toNat ∧ c.toNat ≤ 57)

def digitsValue (ds : Chars) : Nat := Number.ofDigits (ds.map fun c => c.toNat - 48)

/-- The exponent at the front of a text: its value and length, `none` when there is none. -/
def exponent? : Chars → Option (Int × Nat)
  | [] => none
  | e :: r =>
    if e == 'e' || e == 'E' then
      let (sign, r', k) := match r with
        | '+' :: t => (1, t, 2)
        | '-' :: t => (-1, t, 2)
        | t => ((1 : Int), t, 1)
      let ds := r'.takeWhile isDigit
      if ds.isEmpty then none else some (sign * digitsValue ds, k + ds.length)
    else none

def readNumber? : Option (Json × Cursor) :=
  let (minus, body, k) := match s with
    | '-' :: r => (true, r, 1)
    | r => (false, r, 0)
  let whole := match body with
    | '0' :: _ => ['0']
    | r => r.takeWhile isDigit
  if whole.isEmpty then none
  else
    let rest := body.drop whole.length
    let part := match rest with
      | '.' :: r => r.takeWhile isDigit
      | _ => []
    let used := if part.isEmpty then 0 else part.length + 1
    let rest' := rest.drop used
    let n := k + whole.length + used
    match exponent? rest', part.isEmpty with
    | none, true =>
      let v : Int := digitsValue whole
      some (.int (if minus then -v else v), ⟨rest', p + n⟩)
    | e, _ =>
      let (e, used') := e.getD (0, 0)
      let x := Number.ofDecimal (digitsValue (whole ++ part)) (e - part.length)
      some (.real (if minus then -x else x), ⟨rest'.drop used', p + n + used'⟩)

def words : List (Chars × Json) :=
  [("null".toList, .null), ("true".toList, true), ("false".toList, false), ("NaN".toList,
    .real (0.0 / 0.0)), ("Infinity".toList, .real (1.0 / 0.0)), ("-Infinity".toList, .real (-(1.0 / 0.0)))]

def readWord? : Option (Json × Cursor) :=
  words.findSome? fun (w, v) => (Text.dropLead? w s).map fun r => (v, ⟨r, p + w.length⟩)

def tooDeep (position : Nat) : Step α := .error ⟨"maximum recursion depth exceeded", position, .depth⟩

/-- Reads one value, in which lists and objects may be nested `depth` times. The fuel bounds the depth, the number of
parts and the characters of a string; twice the length of the document and two more always suffice. -/
def readValue : Nat → Nat → Chars → Nat → Step (Json × Cursor)
  | 0, _, _, p => failAt "Expecting value" p
  | fuel + 1, depth, s, p =>
    match s with
    | '"' :: r => do
      let (t, c) ← readText p fuel r (p + 1) []
      return (t, c)
    | '{' :: r =>
      let c := skipSpace r (p + 1)
      if depth = 0 then tooDeep p
      else match c.rest with
        | '}' :: r' => .ok (.object [], ⟨r', c.position + 1⟩)
        | _ => readMembers fuel (depth - 1) c.rest c.position []
    | '[' :: r =>
      let c := skipSpace r (p + 1)
      if depth = 0 then tooDeep p
      else match c.rest with
        | ']' :: r' => .ok (.list [], ⟨r', c.position + 1⟩)
        | _ => readItems fuel (depth - 1) c.rest c.position []
    | _ =>
      match readWord? s p with
      | some r => .ok r
      | none =>
        match readNumber? s p with
        | some (.int n, c) =>
          let digits := c.position - p - (if n < 0 then 1 else 0)
          if Number.digitLimit < digits then .error ⟨Number.digitLimitText digits, p, .digits⟩ else .ok (n, c)
        | some r => .ok r
        | none => failAt "Expecting value" p
where
  readMembers : Nat → Nat → Chars → Nat → List (String × Json) → Step (Json × Cursor)
    | 0, _, _, p, _ => failAt "Expecting value" p
    | fuel + 1, depth, s, p, acc =>
      match s with
      | '"' :: r => do
        let (key, c) ← readText p fuel r (p + 1) []
        let c := skipSpace c.rest c.position
        match c.rest with
        | ':' :: r' =>
          let c := skipSpace r' (c.position + 1)
          let (v, c) ← readValue fuel depth c.rest c.position
          let acc := Fields.insert acc key v
          let c := skipSpace c.rest c.position
          match c.rest with
          | '}' :: r'' => return (.object acc, ⟨r'', c.position + 1⟩)
          | ',' :: r'' =>
            let c := skipSpace r'' (c.position + 1)
            readMembers fuel depth c.rest c.position acc
          | _ => failAt "Expecting ',' delimiter" c.position
        | _ => failAt "Expecting ':' delimiter" c.position
      | _ => failAt "Expecting property name enclosed in double quotes" p
  readItems : Nat → Nat → Chars → Nat → List Json → Step (Json × Cursor)
    | 0, _, _, p, _ => failAt "Expecting value" p
    | fuel + 1, depth, s, p, acc => do
      let (v, c) ← readValue fuel depth s p
      let c := skipSpace c.rest c.position
      match c.rest with
      | ']' :: r => return (.list (v :: acc).reverse, ⟨r, c.position + 1⟩)
      | ',' :: r =>
        let c := skipSpace r (c.position + 1)
        readItems fuel depth c.rest c.position (v :: acc)
      | _ => failAt "Expecting ',' delimiter" c.position

end Reader

def Reader.Failure.within (document : Chars) (f : Reader.Failure) : ReadError :=
  ⟨f.reason, document, f.position, f.cause⟩

def read (s : String) : Except ReadError Json :=
  let doc := s.toList
  if doc.head? == some (Char.ofNat 0xFEFF) then
    .error ⟨"Unexpected UTF-8 BOM (decode using utf-8-sig)", doc, 0, .form⟩
  else
    let c := Reader.skipSpace doc 0
    match Reader.readValue (2 * doc.length + 2) depthLimit c.rest c.position with
    | .error f => .error (f.within doc)
    | .ok (v, c) =>
      let c := Reader.skipSpace c.rest c.position
      if c.rest.isEmpty then .ok v else .error ⟨"Extra data", doc, c.position, .form⟩

variable (s : String)

/-- Whether a text is a document. One that has the form of a document but cannot be read is an error. -/
def isDocument : Except ReadError Bool :=
  match read s with
  | .ok _ => .ok true
  | .error e => if e.isForm then .ok false else .error e

/-!
## JSON inside prose

Models wrap documents in prose. A document is looked for in fenced blocks, then as a balanced pair of braces, then
as the whole text.
-/

def firstDocument? : Strings → Except ReadError (Option String)
  | [] => .ok none
  | s :: ss => do if ← isDocument s then return some s else firstDocument? ss

def fence : Chars := "```".toList

/-- The contents of the fenced blocks of a text, stripped. A word `json` after the opening fence is no part of
the contents. The fuel bounds the number of blocks. -/
def fencedBlocks : Nat → Chars → Strings
  | 0, _ => []
  | fuel + 1, s =>
    match Text.breakOn? fence s with
    | none => []
    | some (_, rest) =>
      let body := (Text.dropLead? "json".toList rest).getD rest
      match Text.breakOn? fence body with
      | none => []
      | some (block, rest) => String.ofList (Text.strip block) :: fencedBlocks fuel rest

/-- The pieces of a text in balanced braces. `depth` counts open braces and may be negative; `started` is what was read
since the outermost open brace, last character first. -/
def pieces : Chars → Int → Option Chars → Strings
  | [], _, _ => []
  | c :: s, depth, started =>
    if c == '{' then pieces s (depth + 1) (if depth == 0 then some [c] else started.map (c :: ·))
    else if c == '}' then
      match started with
      | none => pieces s (depth - 1) none
      | some acc =>
        if depth == 1 then String.ofList (c :: acc).reverse :: pieces s 0 none
        else pieces s (depth - 1) (some (c :: acc))
    else pieces s depth (started.map (c :: ·))

/-- The whole text, stripped, when it has braces around it. -/
def wholeText? (s : Chars) : Option String :=
  let t := Text.strip s
  if t.head? == some '{' && t.getLast? == some '}' then some (String.ofList t) else none

/-- What is tried in a text, one after the other. -/
def candidates (s : Chars) : Strings :=
  fencedBlocks (s.length + 1) s ++ (pieces s 0 none ++ (wholeText? s).toList)

def extract : Except ReadError (Option String) := firstDocument? (candidates s.toList)

def extractValue : Except ReadError (Option Json) := do
  match ← extract s with
  | none => return none
  | some d => return (read d).toOption

end PatchReview.Json
