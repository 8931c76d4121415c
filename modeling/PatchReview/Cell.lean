import PatchReview.Json.Printer

/-!
# Cells of tables

What a cell of a table holds: nothing, a whole number of 64 bits, a real number or a text. A column wants one kind of
value. A column of texts turns numbers into texts, and a column of whole numbers turns what reads as a number into one,
whole if it can be; what cannot be turned stays as it is.
-/

namespace PatchReview

open Number String

inductive Cell where
  | null
  | whole (n : Int)
  /-- A real number by its bits; it is a number. -/
  | real (bits : UInt64)
  | text (s : String)
  deriving DecidableEq

namespace Cell

def holdsWhole (n : Int) : Bool := -9223372036854775808 ≤ n && n ≤ 9223372036854775807

variable (x : Float) (column : String)

def ofReal : Cell := if x.isNaN then null else real x.toBits

/-- A cell with a real number, or a whole one if they are equal. -/
def ofNumber : Cell :=
  match truncate? x with
  | some n => if ofWhole n == x && -9223372036854775808 < n && n < 9223372036854775807 then whole n else ofReal x
  | none => ofReal x

def unencodable (s : Chars) (first last : Nat) : Fault :=
  let where_ := if first == last then
      "character " ++ quoted (ofList ((s.drop first).take 1)) ++ s!" in position {first}"
    else s!"characters in position {first}-{last}"
  .unencodable s!"'utf-8' codec can't encode {where_}: surrogates not allowed"

def tooLarge : Fault := .overflow "Python int too large to convert to SQLite INTEGER"

def ofParameter (number : Nat) : Json → Result Cell
  | .null => .ok null
  | .bool b => .ok (whole (if b then 1 else 0))
  | .int n =>
    if holdsWhole n then .ok (whole n) else .error tooLarge
  | .real x => .ok (ofReal x)
  | .text s =>
    match Text.unpairedRun? s.toList with
    | some (first, last) => .error (unencodable s.toList first last)
    | none => .ok (text s)
  | v => .error (.binding s!"Error binding parameter {number}: type '{v.kindName}' is not supported")

def ofParametersFrom : Nat → List Json → Result (List Cell)
  | _, [] => .ok []
  | k, v :: vs => do
    let c ← ofParameter k v
    return c :: (← ofParametersFrom (k + 1) vs)

def ofParameters (vs : List Json) : Result (List Cell) := ofParametersFrom 1 vs

/-- How a real number is written in a column of texts: fifteen digits. -/
def realText : String :=
  match Number.Binary.ofFloat? x with
  | none => if x < 0.0 then "-Inf" else "Inf"
  | some b =>
    if b.mantissa == 0 then "0.0" else
    let s := renderDecimal ⟨15, -4, "", ""⟩ (b.rounded 15)
    let whole := s.takeWhile (· != 'e')
    let s := if whole.contains '.' then s else whole ++ ['.', '0'] ++ s.drop whole.length
    ofList (if b.minus then '-' :: s else s)

/-- The text of a cell in a column of texts; none when it is empty. -/
def text? : Cell → Option String
  | null => none
  | whole n => some (toString n)
  | real bits => some (realText (Float.ofBits bits))
  | text s => some s

def isBlank (c : Char) : Bool := c == ' ' || (9 ≤ c.toNat && c.toNat ≤ 13)

def spanDigits (s : Chars) : Chars × Chars := (s.takeWhile Char.isDigit, s.dropWhile Char.isDigit)

/-- The exponent of a number text, which is all of it. -/
def isExponent : Chars → Bool
  | [] => true
  | e :: rest =>
    let (_, ds) := takeSign rest
    (e == 'e' || e == 'E') && !ds.isEmpty && ds.all Char.isDigit

/-- The number that a text is, between blanks: digits, maybe with a sign, a point and an exponent. -/
def number? (s : String) : Option Cell :=
  let cs := Text.dropRightWhile isBlank (s.toList.dropWhile isBlank)
  let (_, rest) := takeSign cs
  let (ds, rest) := spanDigits rest
  let (part, after) := match rest with
    | '.' :: rest => spanDigits rest
    | rest => ([], rest)
  if (ds.isEmpty && part.isEmpty) || !isExponent after then none
  else
    let t := ofList cs
    let whole? := if rest.isEmpty then (readInt? t).filter holdsWhole else none
    match whole? with
    | some n => some (whole n)
    | none => (readReal? t).map ofNumber

def asWhole : Cell → Cell
  | null => null
  | whole n => whole n
  | real bits => ofNumber (Float.ofBits bits)
  | text s => (number? s).getD (text s)

def toJson : Cell → Json
  | null => .null
  | whole n => n
  | real bits => Float.ofBits bits
  | text s => s

def requireText (c : Cell) : Result String :=
  match c.text? with
  | some s => .ok s
  | none => .error (.constraint s!"NOT NULL constraint failed: {column}")

/-- A number, or what stands for one, that a column must have. -/
def requireWhole (c : Cell) : Result Cell :=
  match c.asWhole with
  | null => .error (.constraint s!"NOT NULL constraint failed: {column}")
  | c => .ok c

end Cell

end PatchReview
